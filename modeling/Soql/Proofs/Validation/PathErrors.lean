import Mathlib.Data.List.Nodup
import Soql.Proofs.Query.Reading
import Soql.Proofs.Validation.Messages
import Soql.Proofs.Validation.Resolves
import Soql.Schema.Sample

namespace Soql.Validator

open Text PathWalk

abbrev Finding := Reference × Message

/-- The references whose paths are checked: the first one to each path that is not the name of a call,
letter case not counting. -/
def checkedReferences (q : Query) : List Reference :=
  firstReferences [] (q.references.filter fun r => !(callAliases q).contains (lower r.path))

def junctionReferences (q : Query) (main : SObject) : List Reference :=
  firstReferences [] (q.references.filter fun r => (throughJunction main r.path).isSome)

def pathFinding (main : SObject) (context : Context) (r : Reference) : Option Finding :=
  if (throughJunction main r.path).any (!·.isEmpty) then none
  else match walk context main r.path with
    | .reached _ => none
    | .lost message corrected => some (r, pathError r.path message corrected)

def pathFindings (q : Query) (main : SObject) (context : Context) : List Finding :=
  (checkedReferences q).filterMap (pathFinding main context)

def junctionFinding (q : Query) (main : SObject) (context : Context) (r : Reference) : Option Finding :=
  (throughJunction main r.path).map fun junction => (r, junctionError q main context r junction)

def junctionFindings (q : Query) (main : SObject) (context : Context) : List Finding :=
  (junctionReferences q main).filterMap (junctionFinding q main context)

def numberAbout (path : String) (findings : List Finding) : Nat :=
  findings.countP fun e => e.1.path == path

variable {q : Query} {main : SObject} {context : Context}

theorem pathFindings_messages : (pathFindings q main context).map (·.2) = pathRule q main context := by
  unfold pathFindings pathRule checkedReferences
  rw [List.map_filterMap]
  apply List.filterMap_congr
  intro r _
  unfold pathFinding
  split
  · rfl
  · split <;> simp [*]

theorem junctionFindings_messages : (junctionFindings q main context).map (·.2) = junctionRule q main context := by
  unfold junctionFindings junctionRule junctionReferences
  rw [List.map_filterMap]
  apply List.filterMap_congr
  intro r _
  unfold junctionFinding
  rw [Option.map_map]
  rfl

theorem throughJunction_undotted {path : String} (h : '.' ∉ path.toList) : throughJunction main path = none := by
  rw [throughJunction, isDotted, if_neg (by simpa using h)]

/-- The rule for joining objects finds nothing where no path goes through one. -/
theorem junctionRule_of_direct (h : ∀ r ∈ q.references, throughJunction main r.path = none) :
    junctionRule q main context = [] := by
  have hthrough : (q.references.filter fun r => (throughJunction main r.path).isSome) = [] := by
    rw [List.filter_eq_nil_iff]
    intro r hr
    rw [h r hr]
    exact nofun
  rw [junctionRule, hthrough]
  rfl

section First

/-- A reference is kept when it is the first one to its path. -/
theorem mem_firstReferences {seen : List String} {rs : List Reference} {r : Reference} :
    r ∈ firstReferences seen rs ↔
      lower r.path ∉ seen ∧ rs.find? (fun x => lower x.path == lower r.path) = some r := by
  induction rs generalizing seen with
  | nil => simp [firstReferences]
  | cons x rs ih =>
    rw [firstReferences]
    by_cases hx : lower x.path = lower r.path
    · -- Nothing later with this path is kept.
      rw [List.find?_cons_of_pos (by simpa using hx)]
      by_cases hseen : lower x.path ∈ seen
      · simp only [List.contains_iff_mem, hseen, if_true, ih]
        rw [hx] at hseen
        exact iff_of_false (fun h => h.1 hseen) (fun h => h.1 hseen)
      · simp only [List.contains_iff_mem, hseen, if_false, List.mem_cons, ih]
        rw [hx] at hseen ⊢
        simp only [not_true_eq_false, false_and, or_false, hseen, not_false_eq_true,
          true_and, Option.some.injEq]
        exact eq_comm
    · rw [List.find?_cons_of_neg (by simpa using hx)]
      by_cases hseen : lower x.path ∈ seen
      · simp only [List.contains_iff_mem, hseen, if_true, ih]
      · simp only [List.contains_iff_mem, hseen, if_false, List.mem_cons, ih, not_or]
        constructor
        · rintro (rfl | ⟨⟨-, hnot⟩, hfind⟩)
          · exact absurd rfl hx
          · exact ⟨hnot, hfind⟩
        · rintro ⟨hnot, hfind⟩
          exact .inr ⟨⟨fun h => hx h.symm, hnot⟩, hfind⟩

theorem nodup_firstReferences (seen : List String) (rs : List Reference) :
    ((firstReferences seen rs).map fun r => lower r.path).Nodup := by
  induction rs generalizing seen with
  | nil => exact List.nodup_nil
  | cons x rs ih =>
    rw [firstReferences]
    split
    · exact ih seen
    · rw [List.map_cons, List.nodup_cons]
      refine ⟨?_, ih _⟩
      intro hmem
      obtain ⟨r, hr, heq⟩ := List.mem_map.mp hmem
      exact (mem_firstReferences.mp hr).1 (by simp [heq])

theorem exists_firstReference {rs : List Reference} {r : Reference} (hr : r ∈ rs) :
    ∃ f ∈ firstReferences [] rs, lower f.path = lower r.path := by
  have hsome : (rs.find? fun x => lower x.path == lower r.path).isSome = true := by
    rw [List.find?_isSome]
    exact ⟨r, hr, by simp⟩
  obtain ⟨f, hf⟩ := Option.isSome_iff_exists.mp hsome
  have hpath : lower f.path = lower r.path := by simpa using List.find?_some hf
  refine ⟨f, mem_firstReferences.mpr ⟨by simp, ?_⟩, hpath⟩
  rw [hpath]
  exact hf

/-- Among all references, the first one to its path is also the first one among some that it belongs to. -/
theorem firstReference_filter {rs : List Reference} {p : Reference → Bool} {r : Reference}
    (h : r ∈ firstReferences [] rs) (hp : p r = true) : r ∈ firstReferences [] (rs.filter p) := by
  have hfind := (mem_firstReferences.mp h).2
  refine mem_firstReferences.mpr ⟨by simp, ?_⟩
  obtain ⟨hkey, before, after, rfl, hbefore⟩ := List.find?_eq_some_iff_append.mp hfind
  rw [List.filter_append, List.filter_cons_of_pos hp]
  refine List.find?_eq_some_iff_append.mpr ⟨hkey, _, _, rfl, ?_⟩
  intro x hx
  exact hbefore x (List.mem_filter.mp hx).1

/-- Whether a path is the name of a call depends on its lower case only, so that the first reference
to a path that is none is the first one among all. -/
theorem firstReference_of_checked {r : Reference} (h : r ∈ checkedReferences q) :
    r ∈ firstReferences [] q.references := by
  have hfind := (mem_firstReferences.mp h).2
  have hp := (List.mem_filter.mp (List.mem_of_find?_eq_some hfind)).2
  refine mem_firstReferences.mpr ⟨by simp, ?_⟩
  rw [List.find?_filter] at hfind
  rw [← hfind]
  congr 1
  funext x
  by_cases hx : lower x.path = lower r.path
  · simp only [hx, hp, beq_self_eq_true, and_self, decide_true]
  · simp [hx]

theorem mem_references_of_checked {r : Reference} (h : r ∈ checkedReferences q) : r ∈ q.references :=
  (List.mem_filter.mp (List.mem_of_find?_eq_some (mem_firstReferences.mp h).2)).1

/-- A path that is not the name of a call is checked, maybe in another letter case. -/
theorem exists_checkedReference {r : Reference} (hr : r ∈ q.references) (hname : lower r.path ∉ callAliases q) :
    ∃ f ∈ checkedReferences q, lower f.path = lower r.path :=
  exists_firstReference (List.mem_filter.mpr ⟨hr, by simpa using hname⟩)

end First

theorem path_of_pathFinding {r : Reference} {e : Finding} (h : pathFinding main context r = some e) : e.1 = r := by
  unfold pathFinding at h
  split at h
  · cases h
  · split at h
    · cases h
    · cases h
      rfl

theorem isError_of_pathFinding {r : Reference} {e : Finding} (h : pathFinding main context r = some e) :
    e.2.isError = true := by
  unfold pathFinding at h
  split at h
  · cases h
  · split at h
    · cases h
    · cases h
      unfold pathError
      split <;> rfl

/-- The rule on paths says nothing wrong just if it finds nothing at any of the paths that it checks. -/
theorem errors_pathRule_nil_iff :
    Message.errors (pathRule q main context) = [] ↔
      ∀ r ∈ checkedReferences q, pathFinding main context r = none := by
  rw [← pathFindings_messages, ← List.filterMap_eq_nil_iff]
  constructor
  · intro herrors
    by_contra hne
    obtain ⟨e, he⟩ := List.exists_mem_of_ne_nil _ hne
    obtain ⟨r, -, hfound⟩ := List.mem_filterMap.mp he
    exact Message.errors_ne_nil (isError_of_pathFinding hfound) (List.mem_map_of_mem he) herrors
  · intro hnone
    rw [pathFindings, hnone]
    rfl

theorem path_of_junctionFinding {r : Reference} {e : Finding} (h : junctionFinding q main context r = some e) :
    e.1 = r := by
  obtain ⟨junction, -, rfl⟩ := Option.map_eq_some_iff.mp h
  rfl

/-- Where references have distinct paths and each has at most one error, a path of theirs has just that. -/
theorem numberAbout_filterMap {rs : List Reference} {find : Reference → Option Finding}
    (hnodup : (rs.map fun r => lower r.path).Nodup) (hfind : ∀ r e, find r = some e → e.1 = r)
    {r : Reference} (hr : r ∈ rs) :
    numberAbout r.path (rs.filterMap find) = if (find r).isSome then 1 else 0 := by
  have hnone (xs : List Reference) (hxs : ∀ x ∈ xs, lower x.path ≠ lower r.path) :
      numberAbout r.path (xs.filterMap find) = 0 := by
    unfold numberAbout
    rw [List.countP_eq_zero]
    intro e he hpath
    obtain ⟨x, hx, hfound⟩ := List.mem_filterMap.mp he
    rw [hfind x e hfound, beq_iff_eq] at hpath
    exact hxs x hx (by rw [hpath])
  obtain ⟨before, after, rfl⟩ := List.append_of_mem hr
  rw [List.map_append, List.map_cons, List.nodup_append, List.nodup_cons] at hnodup
  obtain ⟨-, ⟨hafter, -⟩, hapart⟩ := hnodup
  have hzero := hnone before fun x hx heq =>
    hapart _ (List.mem_map_of_mem hx) _ List.mem_cons_self heq
  have hlater := hnone after fun x hx heq => hafter (heq ▸ List.mem_map_of_mem hx)
  unfold numberAbout at hzero hlater ⊢
  rw [List.filterMap_append, List.countP_append, hzero, Nat.zero_add]
  cases hr : find r with
  | none =>
    rw [List.filterMap_cons_none hr, hlater]
    rfl
  | some e =>
    have hpath : (e.1.path == r.path) = true := by rw [hfind r e hr, beq_self_eq_true]
    rw [List.filterMap_cons_some hr, List.countP_cons_of_pos (p := fun e : Finding => e.1.path == r.path) hpath, hlater]
    rfl

/-- A joining or child object that a path goes through has a name. -/
theorem throughJunction_ne_empty (hchildren : ∀ c ∈ main.children, c.object ≠ "") {path junction : String}
    (h : throughJunction main path = some junction) : junction ≠ "" := by
  unfold throughJunction at h
  split at h
  · unfold junctionOf at h
    split at h
    · cases h
    · split at h
      · cases h
        have hnamed : ∀ j ∈ Vocabulary.junctions, j.object ≠ "" := by decide
        exact hnamed _ (List.mem_of_find?_eq_some ‹_›)
      · obtain ⟨c, hc, rfl⟩ := Option.map_eq_some_iff.mp h
        exact hchildren c (List.mem_of_find?_eq_some hc)
  · cases h

theorem throughJunction_any (hchildren : ∀ c ∈ main.children, c.object ≠ "") (path : String) :
    (throughJunction main path).any (!·.isEmpty) = (throughJunction main path).isSome := by
  cases h : throughJunction main path with
  | none => rfl
  | some junction =>
    have hne := throughJunction_ne_empty hchildren h
    simp [hne]

theorem isSome_pathFinding (hchildren : ∀ c ∈ main.children, c.object ≠ "") (r : Reference) :
    (pathFinding main context r).isSome = true ↔
      throughJunction main r.path = none ∧ ¬Resolves context main r.path := by
  unfold pathFinding
  rw [throughJunction_any hchildren, ← walk_isReached]
  cases throughJunction main r.path with
  | some junction => simp
  | none => cases walk context main r.path <;> simp [Outcome.isReached]

theorem isSome_junctionFinding (r : Reference) :
    (junctionFinding q main context r).isSome = (throughJunction main r.path).isSome :=
  Option.isSome_map

/-- A path through a joining object gets its error from the rule for those, and any other path none. -/
theorem numberAbout_junctionFindings {r : Reference} (hr : r ∈ checkedReferences q) :
    numberAbout r.path (junctionFindings q main context) =
      if (throughJunction main r.path).isSome then 1 else 0 := by
  by_cases hthrough : (throughJunction main r.path).isSome = true
  · have hfirst : r ∈ firstReferences [] q.references := firstReference_of_checked hr
    have hmem : r ∈ junctionReferences q main := firstReference_filter hfirst hthrough
    have hown (x : Reference) (e : Finding) (h : junctionFinding q main context x = some e) : e.1 = x :=
      path_of_junctionFinding h
    have hcount := numberAbout_filterMap (nodup_firstReferences [] _) hown hmem
    rw [isSome_junctionFinding] at hcount
    exact hcount
  · rw [if_neg hthrough]
    unfold numberAbout
    rw [List.countP_eq_zero]
    intro e he hpath
    obtain ⟨x, hx, hfound⟩ := List.mem_filterMap.mp he
    apply hthrough
    rw [path_of_junctionFinding hfound, beq_iff_eq] at hpath
    have hsome : (junctionFinding q main context x).isSome = true := Option.isSome_of_eq_some hfound
    rw [isSome_junctionFinding, hpath] at hsome
    exact hsome

theorem numberAbout_pathFindings (hchildren : ∀ c ∈ main.children, c.object ≠ "") {r : Reference}
    (hr : r ∈ checkedReferences q) :
    numberAbout r.path (pathFindings q main context) =
      if (throughJunction main r.path).isSome ∨ Resolves context main r.path then 0 else 1 := by
  have hown (x : Reference) (e : Finding) (h : pathFinding main context x = some e) : e.1 = x :=
    path_of_pathFinding h
  have hcount := numberAbout_filterMap (nodup_firstReferences [] _) hown hr
  have hsome : (pathFinding main context r).isSome = true ↔
      throughJunction main r.path = none ∧ ¬Resolves context main r.path := isSome_pathFinding hchildren r
  refine hcount.trans ?_
  by_cases hthrough : throughJunction main r.path = none
  · by_cases hleads : Resolves context main r.path
    · rw [if_neg fun h => (hsome.mp h).2 hleads, if_pos (.inr hleads)]
    · rw [if_pos (hsome.mpr ⟨hthrough, hleads⟩), if_neg]
      simp [hthrough, hleads]
  · rw [if_neg fun h => hthrough (hsome.mp h).1, if_pos]
    exact .inl (Option.isSome_iff_ne_none.mpr hthrough)

theorem isDotted_eq (path : String) : isDotted path = decide (2 ≤ (segments path).length) := by
  unfold isDotted segments splitAt
  rw [List.length_map]
  induction path.toList with
  | nil => rfl
  | cons c s ih =>
    have hpos := List.length_pos_iff.mpr (pieces_ne_nil (· == '.') s)
    by_cases hc : c = '.'
    · rw [hc, pieces, if_pos (beq_self_eq_true _), List.length_cons]
      have htwo : 2 ≤ (pieces (· == '.') s).length + 1 := by omega
      simp [htwo]
    · have hkept : (c == '.') = false := beq_eq_false_iff_ne.mpr hc
      rw [pieces_cons_of_not_sep (p := (· == '.')) hkept, List.length_modifyHead, ← ih, List.contains_cons]
      rw [beq_eq_false_iff_ne.mpr (Ne.symm hc), Bool.false_or]

/-- What the rules say of a query whose object is described. -/
theorem validate_of_main (validator : Validator) (hmain : context.get? q.object = some main) :
    validator.validate q context =
      syntaxRules q ++ toolingRule q main.name ++ pathRule q main context ++
        (typeOfRule q main context ++ childRule q main context) ++ junctionRule q main context ++
        (aggregateRule q ++ semiJoinRule q context ++ literalRule q (some main) context ++
          picklistRule q main context ++ governorRule validator q (some main) main.name) := by
  unfold validate mainObjectOf
  rw [hmain]
  simp only [List.append_assoc, List.nil_append, Option.map_some, Option.getD_some]

/-- Paths without a capital sigma that differ in letter case only go through the same joining object. -/
theorem throughJunction_congr {path other : String} (hcase : (segments path).map lower = (segments other).map lower)
    (main : SObject) : throughJunction main path = throughJunction main other := by
  have hlength : (segments path).length = (segments other).length := by
    have := congrArg List.length hcase
    rwa [List.length_map, List.length_map] at this
  have hhead : lower ((segments path).headD "") = lower ((segments other).headD "") := by
    generalize segments path = parts, segments other = others at hcase
    cases parts with
    | nil =>
      obtain rfl := List.map_eq_nil_iff.mp hcase.symm
      rfl
    | cons first parts =>
      obtain ⟨another, others, rfl, hfirst, -⟩ := List.map_eq_cons_iff.mp hcase.symm
      exact hfirst.symm
  unfold throughJunction
  rw [isDotted_eq, isDotted_eq, hlength, junctionOf_congr hhead]

/-- Each distinct path of a query that is not the name of a call gets one error from the rule for
joining objects, and none from the one for paths, if it goes through a joining or child object of the
main object; otherwise it gets one error from the rule for paths if it does not resolve, and none if
it does. Passing over a path that was met in another letter case loses nothing: it goes through the
same joining object, and resolves alike. -/
theorem paths_reported (validator : Validator) (hmain : context.get? q.object = some main)
    (hchildren : ∀ c ∈ main.children, c.object ≠ "") :
    (∃ before between after, validator.validate q context =
      before ++ (pathFindings q main context).map (·.2) ++ between ++
        (junctionFindings q main context).map (·.2) ++ after) ∧
    (∀ e ∈ pathFindings q main context ++ junctionFindings q main context, e.2.isError = true) ∧
    (∀ r ∈ checkedReferences q,
      if (throughJunction main r.path).isSome then
        numberAbout r.path (junctionFindings q main context) = 1 ∧
          numberAbout r.path (pathFindings q main context) = 0
      else
        numberAbout r.path (junctionFindings q main context) = 0 ∧
          numberAbout r.path (pathFindings q main context) = if Resolves context main r.path then 0 else 1) ∧
    ∀ r ∈ q.references, lower r.path ∉ callAliases q →
      ∃ f ∈ checkedReferences q, lower f.path = lower r.path ∧
        (SigmaFree r.path → SigmaFree f.path →
          throughJunction main r.path = throughJunction main f.path ∧
            (Resolves context main r.path ↔ Resolves context main f.path)) := by
  refine ⟨?_, ?_, ?_, ?_⟩
  · rw [pathFindings_messages, junctionFindings_messages]
    exact ⟨_, _, _, validate_of_main validator hmain⟩
  · intro e he
    rcases List.mem_append.mp he with he | he
    · obtain ⟨r, -, hfound⟩ := List.mem_filterMap.mp he
      exact isError_of_pathFinding hfound
    · obtain ⟨r, -, hfound⟩ := List.mem_filterMap.mp he
      obtain ⟨junction, -, rfl⟩ := Option.map_eq_some_iff.mp hfound
      rfl
  -- A path through a junction is left to the rule about junctions.
  · intro r hr
    have hjunction : numberAbout r.path (junctionFindings q main context) =
        if (throughJunction main r.path).isSome then 1 else 0 := numberAbout_junctionFindings hr
    have hpath : numberAbout r.path (pathFindings q main context) =
        if (throughJunction main r.path).isSome ∨ Resolves context main r.path then 0 else 1 :=
      numberAbout_pathFindings hchildren hr
    split
    · simp_all
    · simp_all
  · intro r hr hname
    obtain ⟨f, hf, hpath⟩ := exists_checkedReference hr hname
    refine ⟨f, hf, hpath, ?_⟩
    intro hfree hfirst
    have hcase := lower_segments_congr hfree hfirst hpath.symm
    exact ⟨throughJunction_congr hcase main, fun h => h.congr hcase, fun h => h.congr hcase.symm⟩

def owned : Context :=
  .ofObjects [Sample.account, Sample.contact, Sample.user] none [] none

def scattered : String :=
  "SELECT Owner.Name, owner.name, Contacts.Email, Owner.Shoe FROM Account"

theorem paths_reported_scattered : ∃ q, Query.parse scattered = .ok q ∧
    owned.get? q.object = some Sample.account ∧
    checkedReferences q = [⟨.select, "Owner.Name"⟩, ⟨.select, "Contacts.Email"⟩, ⟨.select, "Owner.Shoe"⟩] ∧
    (numberAbout "Contacts.Email" (junctionFindings q Sample.account owned) = 1 ∧
      numberAbout "Contacts.Email" (pathFindings q Sample.account owned) = 0) ∧
    (numberAbout "Owner.Shoe" (junctionFindings q Sample.account owned) = 0 ∧
      numberAbout "Owner.Shoe" (pathFindings q Sample.account owned) = 1) ∧
    numberAbout "Owner.Name" (junctionFindings q Sample.account owned) = 0 ∧
      numberAbout "Owner.Name" (pathFindings q Sample.account owned) = 0 := by
  obtain ⟨q, hq, hfine⟩ := Query.exists_ok_of_any (r := Query.parse scattered)
    (p := fun q => owned.get? q.object == some Sample.account &&
      checkedReferences q == [⟨.select, "Owner.Name"⟩, ⟨.select, "Contacts.Email"⟩, ⟨.select, "Owner.Shoe"⟩])
    (by decide +kernel)
  rw [Bool.and_eq_true, beq_iff_eq, beq_iff_eq] at hfine
  obtain ⟨hmain, hchecked⟩ := hfine
  have hreported := (paths_reported {} hmain (by decide)).2.2.1
  rw [hchecked] at hreported
  have hcontact := hreported ⟨.select, "Contacts.Email"⟩ (by decide)
  have hshoe := hreported ⟨.select, "Owner.Shoe"⟩ (by decide)
  have hname := hreported ⟨.select, "Owner.Name"⟩ (by decide)
  rw [if_pos (by decide)] at hcontact
  rw [if_neg (by decide +kernel), if_neg (by decide +kernel)] at hshoe
  rw [if_neg (by decide), if_pos (by decide)] at hname
  exact ⟨q, hq, hmain, hchecked, hcontact, hshoe, hname⟩

end Soql.Validator
