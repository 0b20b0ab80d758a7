import Soql.Proofs.Query.Sides
import Soql.Proofs.Repair.SemiJoins
import Soql.Proofs.Validation.Ceiling
import Soql.Proofs.Validation.RuleNames

namespace Soql

open Text Token Query

def Leaf.compared? {κ : Type} : Leaf κ → Option String
  | .compare c => some c.field
  | .semiJoin _ => none

section Paths

theorem segments_afterFirstPoint {path : String} (h : isPath path = true) (hdots : 1 < (segments path).length) :
    segments (afterFirstPoint path) = (segments path).drop 1 := by
  have hidents : ∀ s ∈ segments path, isIdent s = true := List.all_eq_true.mp h
  apply segments_joined
  · rw [ne_eq, List.drop_eq_nil_iff]
    omega
  · intro s hs
    exact point_not_mem_of_isIdent (hidents s (List.mem_of_mem_drop hs))

theorem isPath_afterFirstPoint {path : String} (h : isPath path = true) (hdots : 1 < (segments path).length) :
    isPath (afterFirstPoint path) = true := by
  rw [isPath, segments_afterFirstPoint h hdots, List.all_eq_true]
  intro s hs
  exact List.all_eq_true.mp h s (List.mem_of_mem_drop hs)

/-- What follows the first point is the same in any letter case. -/
theorem lower_afterFirstPoint {path other : String} (h : isPath path = true) (h' : isPath other = true)
    (hdots : 1 < (segments path).length) (hsame : lower path = lower other) :
    lower (afterFirstPoint path) = lower (afterFirstPoint other) := by
  have hcase := PathWalk.lower_segments_congr (sigmaFree_of_isPath h) (sigmaFree_of_isPath h') hsame
  have hdots' : 1 < (segments other).length := by
    have hlength := congrArg List.length hcase
    rw [List.length_map, List.length_map] at hlength
    omega
  have hfree := sigmaFree_of_isPath (isPath_afterFirstPoint h hdots)
  have hfree' := sigmaFree_of_isPath (isPath_afterFirstPoint h' hdots')
  have hrest : segments (lower (afterFirstPoint path)) = segments (lower (afterFirstPoint other)) := by
    rw [← lower_segments hfree, ← lower_segments hfree', segments_afterFirstPoint h hdots,
      segments_afterFirstPoint h' hdots', List.map_drop, List.map_drop, hcase]
  rw [← joined_segments (lower (afterFirstPoint path)), hrest, joined_segments]

end Paths

theorem mem_filterReferences {κ : Type} {q : QueryOf κ} {path : String} :
    ⟨.filter, path⟩ ∈ q.references ↔ ∃ l ∈ q.leaves, path ∈ fieldPaths l.field := by
  simp [QueryOf.references]

section Connectives

variable {κ : Type} (change : Leaf κ → Leaf κ) (connective : Connective)

mutual

theorem uses_mapLeaves (f : Filter κ) : (f.mapLeaves change).uses connective = f.uses connective := by
  cases f with
  | leaf l => rfl
  | combine c operands => exact congrArg (c == connective || ·) (anyUses_mapAllLeaves operands)
  | negation operand => exact uses_mapLeaves operand

theorem anyUses_mapAllLeaves (fs : List (Filter κ)) :
    Filter.anyUses connective (Filter.mapAllLeaves change fs) = Filter.anyUses connective fs := by
  cases fs with
  | nil => rfl
  | cons f rest =>
    rw [Filter.mapAllLeaves, Filter.anyUses, Filter.anyUses, uses_mapLeaves f, anyUses_mapAllLeaves rest]

end

/-- Conditions are changed in their places, so that they are combined as before. -/
theorem uses_mapFilter (q : QueryOf κ) : (q.mapFilter change).uses connective = q.uses connective := by
  unfold QueryOf.uses QueryOf.mapFilter
  cases q.filter with
  | none => rfl
  | some f => exact uses_mapLeaves change connective f

end Connectives

namespace Validator

open PathWalk

theorem dotted_of_throughJunction {main : SObject} {path junction : String}
    (h : throughJunction main path = some junction) :
    1 < (segments path).length ∧ junctionOf ((segments path).headD "") main = some junction := by
  unfold throughJunction at h
  split at h
  · rename_i hdotted
    rw [isDotted_eq, decide_eq_true_eq] at hdotted
    exact ⟨hdotted, h⟩
  · cases h

variable {context : Context} {main : SObject}

/-- No relationship has the name of a joining object that a path goes through, so that the path reaches no
field. -/
theorem field?_throughJunction {path junction : String} (h : throughJunction main path = some junction) :
    (PathWalk.walk context main path).field? = none := by
  obtain ⟨hdots, hjunction⟩ := dotted_of_throughJunction h
  rw [PathWalk.walk]
  unfold splitOwnName
  generalize segments path = parts at hdots hjunction
  match parts, hdots with
  | first :: second :: rest, _ =>
    rw [List.headD_cons] at hjunction
    unfold junctionOf at hjunction
    split at hjunction
    · cases hjunction
    · rename_i hother
      rw [Bool.or_eq_true, not_or, Bool.not_eq_true', Bool.not_eq_false, List.isEmpty_iff,
        Bool.not_eq_true] at hother
      obtain ⟨hparents, hnames⟩ := hother
      have hlinks : [main].flatMap (·.parentsBy first) = [] := by simpa using hparents
      simp only [hnames, Bool.false_eq_true, if_false, walkFrom]
      split
      case h_1 matching hfound => exact absurd hfound (link_of_nil hlinks matching)
      case h_2 =>
        have hlost := isReached_lostAtLink [] main.name first (second :: rest)
          ([main].flatMap (·.parents)) (Nearest.link first ([main].flatMap (·.parents)))
        generalize lostAtLink [] main.name first (second :: rest) _ _ = o at hlost
        cases o with
        | reached f => cases hlost
        | lost message corrected => rfl

/-- A path resolves when its walk reaches a field. -/
theorem resolves_iff_reached {o : SObject} {path : String} :
    Resolves context o path ↔ ∃ field, PathWalk.walk context o path = .reached field := by
  rw [← walk_isReached]
  cases PathWalk.walk context o path with
  | reached field => exact iff_of_true rfl ⟨field, rfl⟩
  | lost message corrected => exact iff_of_false Bool.false_ne_true nofun

/-- Without a field that says which values it takes, what is no guessed record id is none at another path
either. -/
theorem guessedIds_moved {c : Comparison} (hfield : (PathWalk.walk context main c.field).field? = none)
    (h : guessedIds context (some main) c = []) (owner : Option SObject) (rest : String) :
    guessedIds context owner ⟨rest, c.operator, c.value⟩ = [] := by
  have hallowed : allowedValues (some main) c.field context = [] := by
    rw [allowedValues, Option.bind_some, hfield]
  rw [guessedIds, List.filter_eq_nil_iff, hallowed] at h
  rw [guessedIds, List.filter_eq_nil_iff]
  intro literal hliteral hguessed
  apply h literal hliteral
  rw [Bool.and_eq_true] at hguessed
  simpa using hguessed.1

/-- Paths of a query through joining objects are compared, each as a whole left side, and stand nowhere
else. -/
structure ComparesJoins (q : Query) (main : SObject) : Prop where
  clause : ∀ r ∈ q.references, (throughJunction main r.path).isSome = true → r.clause = .filter
  side : ∀ l ∈ q.leaves, ∀ path ∈ fieldPaths l.field, (throughJunction main path).isSome = true →
    l.compared? = some path

/-- A path can be followed from the joining object that it goes through, which is described and has a field
that points to the main object. -/
def Joinable (context : Context) (main : SObject) (path : String) : Prop :=
  ∀ junction ∈ throughJunction main path, ∃ o ∈ context.get? junction,
    ∃ link ∈ fieldToMain junction main context, Resolves context o link ∧ Resolves context o (afterFirstPoint path)

/-- The errors are about paths through joining objects, and each is answered by a semi-join. -/
def AnsweredByJoins (messages : List Message) : Prop :=
  ∀ m ∈ Message.errors messages, m.rule = "junctions" ∧ ∃ a ∈ m.action, a.joins = true

instance (messages : List Message) : Decidable (AnsweredByJoins messages) :=
  inferInstanceAs (Decidable (∀ m ∈ Message.errors messages, m.rule = "junctions" ∧ ∃ a ∈ m.action, a.joins = true))

instance (context : Context) (main : SObject) (path : String) : Decidable (Joinable context main path) :=
  inferInstanceAs (Decidable (∀ junction ∈ throughJunction main path, ∃ o ∈ context.get? junction,
    ∃ link ∈ fieldToMain junction main context,
      Resolves context o link ∧ Resolves context o (afterFirstPoint path)))

/-- What becomes of a condition: a comparison of a path through a joining object gives way to a semi-join,
and any other condition stays as it is. -/
inductive Rejoined (context : Context) (main : SObject) : Leaf InnerQuery → Leaf InnerQuery → Prop
  | kept {l : Leaf InnerQuery} (hnone : ∀ path ∈ fieldPaths l.field, throughJunction main path = none) :
    Rejoined context main l l
  | joined {c : Comparison} {junction link rest : String} (hnames : c.field ∈ fieldPaths c.field)
    (hthrough : throughJunction main c.field = some junction)
    (hlink : fieldToMain junction main context = some link)
    (hpath : isPath rest = true) (hrest : lower rest = lower (afterFirstPoint c.field)) :
    Rejoined context main (.compare c) (.semiJoin {
      field := "Id"
      query := {
        object := junction
        items := [.field link none]
        filter := some (.leaf (.compare ⟨rest, c.operator, c.value⟩)) } })

section Errors

variable {q : Query}

/-- The answer to an error about a joining object. -/
theorem action_junctionError {r : Reference} {junction : String} {a : Action}
    (h : (junctionError q main context r junction).action = some a) :
    ∃ link, fieldToMain junction main context = some link ∧ a = .toSemiJoin r.path junction link "Id" := by
  unfold junctionError at h
  dsimp only [Message.error] at h
  split at h
  · obtain ⟨link, hlink, rfl⟩ := Option.map_eq_some_iff.mp h
    exact ⟨link, (Option.mem_filter_iff.mp hlink).1, rfl⟩
  · cases h

/-- A correction that is wanted leads through the joining object of a reference. -/
theorem exists_of_wanted {v : Validator} (hmain : context.get? q.object = some main)
    (hkeeps : KeepsOthers q context main) {a : Action} (ha : a ∈ Repair.wantedActions (v.validate q context)) :
    ∃ r ∈ q.references, ∃ junction link, throughJunction main r.path = some junction ∧
      fieldToMain junction main context = some link ∧ a = .toSemiJoin r.path junction link "Id" := by
  rw [Repair.wantedActions, List.mem_eraseDups, List.mem_filterMap, hkeeps.errors_eq v hmain] at ha
  obtain ⟨m, hm, haction⟩ := ha
  obtain ⟨r, hr, hfound⟩ := List.mem_filterMap.mp hm
  obtain ⟨junction, hthrough, rfl⟩ := Option.map_eq_some_iff.mp hfound
  obtain ⟨link, hlink, rfl⟩ := action_junctionError haction
  have hmem : r ∈ q.references :=
    (List.mem_filter.mp (List.mem_of_find?_eq_some (mem_firstReferences.mp hr).2)).1
  exact ⟨r, hmem, junction, link, hthrough, hlink, rfl⟩

/-- For each reference through a joining object a correction is wanted, maybe with the path in another
letter case. -/
theorem exists_wanted {v : Validator} (hmain : context.get? q.object = some main)
    (hkeeps : KeepsOthers q context main) (hanswered : AnsweredByJoins (v.validate q context)) {r : Reference}
    (hr : r ∈ q.references) (hthrough : (throughJunction main r.path).isSome = true) :
    ∃ path junction link, lower path = lower r.path ∧
      .toSemiJoin path junction link "Id" ∈ Repair.wantedActions (v.validate q context) := by
  have hmem : r ∈ q.references.filter fun r => (throughJunction main r.path).isSome :=
    List.mem_filter.mpr ⟨hr, hthrough⟩
  obtain ⟨f, hf, hpath⟩ := exists_firstReference hmem
  have hsome := (List.mem_filter.mp (List.mem_of_find?_eq_some (mem_firstReferences.mp hf).2)).2
  obtain ⟨junction, hjunction⟩ := Option.isSome_iff_exists.mp hsome
  have herror : junctionError q main context f junction ∈ Message.errors (v.validate q context) := by
    rw [hkeeps.errors_eq v hmain]
    exact List.mem_filterMap.mpr ⟨f, hf, by rw [hjunction]; rfl⟩
  obtain ⟨-, a, ha, -⟩ := hanswered _ herror
  obtain ⟨link, -, rfl⟩ := action_junctionError ha
  exact ⟨f.path, junction, link, hpath, List.mem_eraseDups.mpr (List.mem_filterMap.mpr ⟨_, herror, ha⟩)⟩

end Errors

section Moved

variable {q : Query} {change : Leaf InnerQuery → Leaf InnerQuery}
  (hchange : ∀ l ∈ q.leaves, Rejoined context main l (change l))

include hchange

/-- The comparisons that are left were there before, and are of no path through a joining object. -/
theorem mem_comparisons_rejoined {c : Comparison} (hc : c ∈ (q.mapFilter change).comparisons) :
    c ∈ q.comparisons := by
  rw [mem_comparisons, leaves_mapFilter] at hc
  obtain ⟨l, hl, heq⟩ := List.mem_map.mp hc
  have hrejoined := hchange l hl
  rw [heq] at hrejoined
  cases hrejoined with
  | kept => exact mem_comparisons.mpr hl

/-- A semi-join that a comparison has become has no counts. -/
theorem isShort_rejoined (hq : q.isShort = true) : Query.isShort (q.mapFilter change) = true := by
  obtain ⟨hcounts, hinners⟩ := isShort_iff.mp hq
  refine isShort_iff.mpr ⟨hcounts, ?_⟩
  intro inner hinner
  rcases mem_inners.mp hinner with hitem | ⟨j, hj, rfl⟩
  · exact hinners inner (mem_inners.mpr (.inl hitem))
  · rw [leaves_mapFilter] at hj
    obtain ⟨l, hl, heq⟩ := List.mem_map.mp hj
    have hrejoined := hchange l hl
    rw [heq] at hrejoined
    cases hrejoined with
    | kept => exact hinners _ (mem_inners.mpr (.inr ⟨j, hl, rfl⟩))
    | joined => exact fun n hn => absurd hn List.not_mem_nil

/-- A semi-join was there before, or is one that a comparison has become. -/
theorem semiJoin_rejoined {j : SemiJoin InnerQuery} (hj : j ∈ (q.mapFilter change).semiJoins) :
    j ∈ q.semiJoins ∨ ∃ c ∈ q.comparisons, Rejoined context main (.compare c) (.semiJoin j) := by
  have hmem {q : Query} : j ∈ q.semiJoins ↔ Leaf.semiJoin j ∈ q.leaves := by
    unfold QueryOf.semiJoins
    rw [List.mem_filterMap]
    constructor
    · rintro ⟨l, hl, heq⟩
      cases l with
      | compare c => cases heq
      | semiJoin j' =>
        cases heq
        exact hl
    · exact fun hl => ⟨_, hl, rfl⟩
  rw [hmem, leaves_mapFilter] at hj
  obtain ⟨l, hl, heq⟩ := List.mem_map.mp hj
  have hrejoined := hchange l hl
  rw [heq] at hrejoined
  cases l with
  | compare c => exact .inr ⟨c, mem_comparisons.mpr hl, hrejoined⟩
  | semiJoin j' =>
    cases hrejoined with
    | kept => exact .inl (hmem.mpr hl)

/-- A path that is still named goes through no joining object; it was named before, or is the one of the
record id. -/
theorem reference_rejoined (hsides : ComparesJoins q main) {r : Reference}
    (hr : r ∈ (q.mapFilter change).references) :
    throughJunction main r.path = none ∧ (r ∈ q.references ∨ r.path = "Id") := by
  obtain ⟨clause, path⟩ := r
  by_cases hclause : clause = .filter
  · subst hclause
    rw [mem_filterReferences, leaves_mapFilter] at hr
    obtain ⟨l', hl', hpath⟩ := hr
    obtain ⟨l, hl, rfl⟩ := List.mem_map.mp hl'
    have hrejoined := hchange l hl
    generalize change l = new at hrejoined hpath
    cases hrejoined with
    | kept hnone => exact ⟨hnone path hpath, .inl (mem_filterReferences.mpr ⟨l, hl, hpath⟩)⟩
    | joined =>
      have hid : fieldPaths "Id" = ["Id"] := by decide +kernel
      change path ∈ fieldPaths "Id" at hpath
      rw [hid] at hpath
      obtain rfl := List.mem_singleton.mp hpath
      exact ⟨throughJunction_undotted (by decide), .inr rfl⟩
  · have hmem : ⟨clause, path⟩ ∈ q.references := by
      cases clause with
      | filter => exact absurd rfl hclause
      | _ => simpa [QueryOf.references, QueryOf.mapFilter] using hr
    refine ⟨?_, .inl hmem⟩
    rw [← Option.not_isSome_iff_eq_none]
    exact fun hsome => hclause (hsides.clause _ hmem hsome)

theorem syntaxRules_rejoined (h : syntaxRules q = []) : syntaxRules (q.mapFilter change) = [] := by
  simp only [syntaxRules, List.append_eq_nil_iff] at h ⊢
  obtain ⟨⟨⟨halias, hbind⟩, hhaving⟩, hlike⟩ := h
  rw [bindRule, List.map_eq_nil_iff, List.filter_eq_nil_iff] at hbind
  rw [likeIdRule, List.filterMap_eq_nil_iff] at hlike
  refine ⟨⟨⟨halias, ?_⟩, hhaving⟩, ?_⟩
  · rw [bindRule, List.map_eq_nil_iff, List.filter_eq_nil_iff]
    exact fun c hc => hbind c (mem_comparisons_rejoined hchange hc)
  · rw [likeIdRule, List.filterMap_eq_nil_iff]
    exact fun c hc => hlike c (mem_comparisons_rejoined hchange hc)

theorem toolingRule_rejoined {name : String} (h : toolingRule q name = []) :
    toolingRule (q.mapFilter change) name = [] := by
  unfold toolingRule at h ⊢
  split
  · rename_i hname
    rw [if_pos hname] at h
    simp only [List.map_eq_nil_iff, List.append_eq_nil_iff, ite_eq_right_iff, List.cons_ne_nil, imp_false,
      List.any_eq_true, not_exists, not_and] at h ⊢
    obtain ⟨⟨⟨⟨⟨hcount, hgroups⟩, hlimit⟩, hoffset⟩, hany⟩, hunequal⟩ := h
    refine ⟨⟨⟨⟨⟨hcount, hgroups⟩, hlimit⟩, hoffset⟩, ?_⟩, ?_⟩
    · rwa [uses_mapFilter]
    · exact fun c hc => hunequal c (mem_comparisons_rejoined hchange hc)
  · rfl

/-- A path that is not the name of a call has no error of the rule for paths just when it goes through a
joining object or resolves, in any letter case. -/
theorem pathRule_rejoined (hlaid : ClausesLaid q) (hsides : ComparesJoins q main)
    (hid : (main.field? "Id").isSome = true) (h : pathRule q main context = []) :
    pathRule (q.mapFilter change) main context = [] := by
  rw [pathRule, List.filterMap_eq_nil_iff] at h ⊢
  intro r hr
  obtain ⟨hmem, hname⟩ := List.mem_filter.mp (List.mem_of_find?_eq_some (mem_firstReferences.mp hr).2)
  have hname : lower r.path ∉ callAliases q := by
    change (!(callAliases q).contains (lower r.path)) = true at hname
    simpa using hname
  obtain ⟨hnone, hold⟩ := reference_rejoined hchange hsides hmem
  have hresolves : Resolves context main r.path := by
    rcases hold with hold | hpath
    · obtain ⟨f, hf, hcase⟩ := exists_checkedReference hold hname
      have hsegments := lower_segments_congr (hlaid.sigmaFree (mem_references_of_checked hf))
        (hlaid.sigmaFree hold) hcase
      have hfree := h f hf
      rw [throughJunction_congr hsegments, hnone] at hfree
      refine Resolves.congr (resolves_iff_reached.mpr ?_) hsegments
      split at hfree
      · rename_i hany
        cases hany
      · split at hfree
        · rename_i field hreached
          exact ⟨field, hreached⟩
        · cases hfree
    · rw [hpath]
      exact .field main (List.mem_singleton_self main) hid
  obtain ⟨field, hreached⟩ := resolves_iff_reached.mp hresolves
  split
  · rfl
  · rw [hreached]

theorem junctionRule_rejoined (hsides : ComparesJoins q main) :
    junctionRule (q.mapFilter change) main context = [] :=
  junctionRule_of_direct fun _ hr => (reference_rejoined hchange hsides hr).1

/-- The new semi-joins select the field that points to the main object, and follow the rest of the path. -/
theorem semiJoinRule_rejoined (hjoinable : ∀ r ∈ q.references, Joinable context main r.path)
    (h : semiJoinRule q context = []) : semiJoinRule (q.mapFilter change) context = [] := by
  rw [semiJoinRule, List.flatMap_eq_nil_iff] at h ⊢
  intro j hj
  rcases semiJoin_rejoined hchange hj with hj | ⟨c, hc, hrejoined⟩
  · exact h j hj
  · cases hrejoined with
    | @joined _ junction link rest hnames hthrough hlink hpath hrest =>
      have hmem : ⟨.filter, c.field⟩ ∈ q.references :=
        mem_filterReferences.mpr ⟨_, mem_comparisons.mp hc, hnames⟩
      obtain ⟨o, ho, link', hlink', hleads, hfollows⟩ := hjoinable _ hmem junction hthrough
      obtain rfl : link = link' := Option.some.inj (hlink.symm.trans hlink')
      have hfield := isPath_of_mem_fieldPaths hnames
      have hafter := isPath_afterFirstPoint hfield (dotted_of_throughJunction hthrough).1
      have hcase := lower_segments_congr (sigmaFree_of_isPath hafter) (sigmaFree_of_isPath hpath) hrest.symm
      rw [Option.mem_def] at ho
      simp only [ho, selectsOneField, if_true, List.nil_append]
      rw [joinPathErrors, List.filterMap_eq_nil_iff]
      intro r hr
      -- The query inside names the link and the rest of the path, and nothing else.
      have hresolves : Resolves context o r.path := by
        have hr := List.mem_of_find?_eq_some (mem_firstReferences.mp hr).2
        simp only [QueryOf.references, QueryOf.leaves, Filter.leaves, SelectItem.fieldPaths, List.flatMap_cons,
          List.flatMap_nil, List.append_nil, List.map_cons, List.map_nil, List.mem_append, List.mem_singleton,
          Leaf.field, fieldPaths_of_isPath hpath] at hr
        rcases hr with rfl | hr
        · exact hleads
        · split at hr
          · cases hr
          · rw [List.map_singleton, List.mem_singleton] at hr
            rw [hr]
            exact hfollows.congr hcase
      obtain ⟨field, hreached⟩ := resolves_iff_reached.mp hresolves
      rw [hreached]

theorem literalRule_rejoined (h : literalRule q (some main) context = []) :
    literalRule (q.mapFilter change) (some main) context = [] := by
  have hclean (q : Query) : literalRule q (some main) context = [] ↔
      ∀ pair ∈ scopedComparisons q (some main) context, guessedIds context pair.1 pair.2 = [] := by
    rw [literalRule, List.flatMap_eq_nil_iff]
    exact forall₂_congr fun pair _ => List.map_eq_nil_iff
  rw [hclean] at h ⊢
  rintro ⟨owner, c⟩ hpair
  rcases List.mem_append.mp hpair with hpair | hpair
  · obtain ⟨c', hc, heq⟩ := List.mem_map.mp hpair
    exact h _ (List.mem_append_left _ (List.mem_map.mpr ⟨c', mem_comparisons_rejoined hchange hc, heq⟩))
  · obtain ⟨j, hj, hpair⟩ := List.mem_flatMap.mp hpair
    rcases semiJoin_rejoined hchange hj with hj | ⟨c', hc, hrejoined⟩
    · exact h _ (List.mem_append_right _ (List.mem_flatMap.mpr ⟨j, hj, hpair⟩))
    · cases hrejoined with
      | @joined _ junction link rest hnames hthrough hlink hpath hrest =>
        have hold := h (some main, c') (List.mem_append_left _ (List.mem_map_of_mem hc))
        obtain ⟨moved, hmoved, heq⟩ := List.mem_map.mp hpair
        obtain ⟨rfl, rfl⟩ := Prod.mk.inj heq
        simp only [QueryOf.comparisons, QueryOf.leaves, Filter.leaves, List.filterMap_cons, List.filterMap_nil,
          List.mem_singleton] at hmoved
        rw [hmoved]
        exact guessedIds_moved (field?_throughJunction hthrough) hold _ rest

theorem picklistRule_rejoined (h : picklistRule q main context = []) :
    picklistRule (q.mapFilter change) main context = [] := by
  rw [picklistRule, List.flatMap_eq_nil_iff] at h ⊢
  exact fun c hc => h c (mem_comparisons_rejoined hchange hc)

/-- No rule has anything against the moved comparisons. -/
theorem keepsOthers_rejoined (hlaid : ClausesLaid q) (hsides : ComparesJoins q main)
    (hid : (main.field? "Id").isSome = true) (hjoinable : ∀ r ∈ q.references, Joinable context main r.path)
    (h : KeepsOthers q context main) : KeepsOthers (q.mapFilter change) context main where
  syntaxes := syntaxRules_rejoined hchange h.syntaxes
  tooling := toolingRule_rejoined hchange h.tooling
  paths := pathRule_rejoined hchange hlaid hsides hid h.paths
  types := h.types
  children := h.children
  aggregates := h.aggregates
  semiJoins := semiJoinRule_rejoined hchange hjoinable h.semiJoins
  literals := literalRule_rejoined hchange h.literals
  picklists := picklistRule_rejoined hchange h.picklists

end Moved

/-- The wanted corrections turn each comparison of a path through a joining object into its semi-join, and
leave all other conditions. -/
theorem changeLeaves_rejoined {q : Query} {v : Validator} (hmain : context.get? q.object = some main)
    (hkeeps : KeepsOthers q context main) (hanswered : AnsweredByJoins (v.validate q context))
    (hsides : ComparesJoins q main) (hfields : ∀ l ∈ q.leaves, IsSide l.field) :
    ∀ l ∈ q.leaves, Rejoined context main l
      (Action.changeLeaves (Action.inOrder (Repair.wantedActions (v.validate q context))) l) := by
  intro l hl
  cases l with
  | semiJoin j =>
    rw [Action.changeLeaves_semiJoin]
    apply Rejoined.kept
    intro path hpath
    rw [← Option.not_isSome_iff_eq_none]
    intro hsome
    cases hsides.side _ hl path hpath hsome
  | compare c =>
    rcases Action.changeLeaves_compare (Action.inOrder (Repair.wantedActions (v.validate q context))) c with
      ⟨hkept, hnone⟩ | ⟨path, junction, link, parentField, hmem, hsame, hjoined⟩
    · rw [hkept]
      apply Rejoined.kept
      intro path hpath
      rw [← Option.not_isSome_iff_eq_none]
      intro hsome
      -- The path would be a whole left side, and a correction about it would be wanted.
      obtain rfl : c.field = path := Option.some.inj (hsides.side _ hl path hpath hsome)
      have hreference : ⟨.filter, c.field⟩ ∈ q.references := mem_filterReferences.mpr ⟨_, hl, hpath⟩
      obtain ⟨other, junction, link, hcase, hwanted⟩ := exists_wanted hmain hkeeps hanswered hreference hsome
      have hother := hnone _ _ _ _ (Action.mem_inOrder.mpr hwanted)
      rw [sameLower, hcase, beq_self_eq_true] at hother
      cases hother
    · rw [hjoined]
      obtain ⟨r, hr, junction', link', hthrough, hlink, heq⟩ :=
        exists_of_wanted hmain hkeeps (Action.mem_inOrder.mp hmem)
      obtain ⟨rfl, rfl, rfl, rfl⟩ := Action.toSemiJoin.inj heq
      have hsome : (throughJunction main r.path).isSome = true := Option.isSome_of_eq_some hthrough
      -- The path stands whole on the left side, so that it is no call and no reserved word.
      obtain ⟨clause, path⟩ := r
      obtain rfl : clause = .filter := hsides.clause _ hr hsome
      obtain ⟨l', -, hpath⟩ := mem_filterReferences.mp hr
      have hword := (List.mem_filter.mp hpath).2
      have hpath := isPath_of_mem_fieldPaths hpath
      rw [sameLower, beq_iff_eq] at hsame
      have hfield : isPath c.field = true := (hfields _ hl).isPath hpath hsame
      have hnames : c.field ∈ fieldPaths c.field := by
        rw [fieldPaths_of_isPath hfield, isKeyword_congr hfield hpath hsame]
        rw [Bool.not_eq_true'] at hword
        simp [hword]
      have hcase := lower_segments_congr (sigmaFree_of_isPath hfield) (sigmaFree_of_isPath hpath) hsame
      have hdots := (dotted_of_throughJunction hthrough).1
      refine Rejoined.joined hnames ?_ hlink (isPath_afterFirstPoint hpath hdots)
        (lower_afterFirstPoint hpath hfield hdots hsame.symm)
      rw [throughJunction_congr hcase, hthrough]

/-- A limit cannot be written with a query that can only if it has too many digits itself. -/
theorem not_isShort_of_unwritten {q : Query} (hq : q.isShort = true) {n : Int}
    (h : Repair.isWritten [.applyLimit n] ((Action.applyLimit n).apply q) = false) : Decimal.isShort n = false := by
  rw [← Bool.not_eq_true] at h ⊢
  intro hn
  apply h
  obtain ⟨hcounts, hinners⟩ := isShort_iff.mp hq
  have hlimited : ((Action.applyLimit n).apply q).isShort = true := by
    refine isShort_iff.mpr ⟨?_, hinners⟩
    intro m hm
    rcases List.mem_append.mp hm with hm | hm
    · rwa [List.mem_singleton.mp hm]
    · exact hcounts m (List.mem_append_right _ hm)
  simp [Repair.isWritten, hlimited, hn]

/-- Where all errors of a query are about paths through joining objects and are answered by semi-joins, the
paths are whole left sides of comparisons and can be followed from the joining objects, and the main object
has a record id, correcting the query takes one pass and ends well. Each comparison of such a path has become
a semi-join in its place, and nothing else is changed but the limit. Only a limit that has more digits than
are written keeps the run from its end. -/
theorem corrected_joins {text : String} {q : Query} (hparse : parse text = .ok q) {v : Validator}
    {bounds : Repair.Bounds} {used : Int} (hused : used < bounds.maxPasses)
    (hmain : context.get? q.object = some main) (hid : (main.field? "Id").isSome = true)
    (hanswered : AnsweredByJoins (v.validate q context)) (hsides : ComparesJoins q main)
    (hjoinable : ∀ r ∈ q.references, Joinable context main r.path) :
    ∃ change : Leaf InnerQuery → Leaf InnerQuery, (∀ l ∈ q.leaves, Rejoined context main l (change l)) ∧
      ((∃ o, corrected context v bounds q used = .ok o ∧ o.status = .valid ∧
          o.passes = used + (if Message.errors (v.validate q context) = [] then 0 else 1) ∧
          o.query = Repair.withLimit (askedLimit (q.mapFilter change) context v) (q.mapFilter change)) ∨
        ∃ n, askedLimit (q.mapFilter change) context v = some n ∧ Decimal.isShort n = false ∧
          corrected context v bounds q used = .error .tooLong) := by
  have hnamed : NamedAmong ["junctions"] (Message.errors (v.validate q context)) := by
    intro m hm
    rw [List.mem_singleton]
    exact (hanswered m hm).1
  have hkeeps := keepsOthers_of_named hmain hnamed
  have hchange := changeLeaves_rejoined hmain hkeeps hanswered hsides (parse_sides hparse)
  have hjoins : ∀ a ∈ Repair.wantedActions (v.validate q context), a.joins = true := by
    intro a ha
    obtain ⟨r, -, junction, link, -, -, rfl⟩ := exists_of_wanted hmain hkeeps ha
    rfl
  have hmoved := Action.applyAll_joins q hjoins
  generalize Action.changeLeaves (Action.inOrder (Repair.wantedActions (v.validate q context))) = change
    at hchange hmoved
  have hshort : Query.isShort (q.mapFilter change) = true := isShort_rejoined hchange (parse_short hparse)
  have hclean : Message.errors (v.validate (q.mapFilter change) context) = [] := by
    have hkeeps' := keepsOthers_rejoined hchange (parse_laid hparse) hsides hid hjoinable hkeeps
    have hmain' : context.get? (q.mapFilter change).object = some main := hmain
    rw [hkeeps'.errors_eq v hmain', junctionRule_rejoined hchange hsides]
  have hactions : ∀ m ∈ Message.errors (v.validate q context), m.action.isSome = true := by
    intro m hm
    obtain ⟨-, a, ha, -⟩ := hanswered m hm
    exact Option.isSome_of_eq_some ha
  -- No semi-join renames a path, and none brings in a count.
  have hmade := Action.performAll_joins q hjoins
  have hwritten : Repair.isWritten (Repair.wantedActions (v.validate q context)) (q.mapFilter change) = true := by
    rw [Repair.isWritten, hshort, Bool.true_and, List.all_eq_true]
    intro a ha
    have hjoin := hjoins a ha
    cases a with
    | applyLimit n => cases hjoin
    | _ => rfl
  obtain ⟨p, hquery, hmessages, hpasses, hrun⟩ := Repair.run_once (fun q => v.validate q context) hused hactions
    hmade (by rw [hmoved]; exact hwritten) (by rw [hmoved]; exact hclean) ()
  rw [hmoved] at hquery
  have hvalid : Repair.classify p.messages = .valid :=
    Repair.classify_valid_of_errors (by rw [hmessages, hquery]; exact hclean)
  have hasked := settleValid_asked context (v := v) (p := p) hmessages (by rw [hquery]; exact hclean) ()
  change ((Repair.run (fun q => (pure (v.validate q context) : StateM Unit _)) bounds q used) ()) = _ at hrun
  refine ⟨change, hchange, ?_⟩
  unfold corrected
  rw [hrun]
  rw [hquery] at hasked
  rcases hasked with ⟨o, ho, hlimited⟩ | ⟨n, hn, hunwritten, htooLong⟩
  · obtain ⟨hstatus, hsame⟩ := Repair.settleValid_valid (fun q => v.validate q context) hvalid ho
    exact .inl ⟨o, ho, hstatus, hsame.trans hpasses, hlimited⟩
  · exact .inr ⟨n, hn, not_isShort_of_unwritten hshort hunwritten, htooLong⟩

def scatteredJoins : String :=
  "SELECT Name FROM Account WHERE Contacts.Email = 'a' OR NOT (contacts.email LIKE 'b' AND Name = 'c')"

theorem corrected_joins_scattered : ∃ q, parse scatteredJoins = .ok q ∧
    (Message.errors (({} : Validator).validate q owned)).length = 1 ∧
    ∃ change : Leaf InnerQuery → Leaf InnerQuery, (∀ l ∈ q.leaves, Rejoined owned Sample.account l (change l)) ∧
      ((∃ o, corrected owned {} {} q 0 = .ok o ∧ o.status = .valid ∧
          o.passes = 0 + (if Message.errors (({} : Validator).validate q owned) = [] then 0 else 1) ∧
          o.query = Repair.withLimit (askedLimit (q.mapFilter change) owned {}) (q.mapFilter change)) ∨
        ∃ n, askedLimit (q.mapFilter change) owned {} = some n ∧ Decimal.isShort n = false ∧
          corrected owned {} {} q 0 = .error .tooLong) ∧
    ∃ o, corrected owned {} {} q 0 = .ok o := by
  obtain ⟨q, hq, hall⟩ := exists_ok_of_any (r := parse scatteredJoins)
    (p := fun q => (Message.errors (({} : Validator).validate q owned)).length == 1 &&
      owned.get? q.object == some Sample.account &&
      decide (AnsweredByJoins (({} : Validator).validate q owned)) &&
      decide (∀ r ∈ q.references, (throughJunction Sample.account r.path).isSome = true → r.clause = .filter) &&
      decide (∀ l ∈ q.leaves, ∀ path ∈ fieldPaths l.field,
        (throughJunction Sample.account path).isSome = true → l.compared? = some path) &&
      decide (∀ r ∈ q.references, Joinable owned Sample.account r.path) &&
      (corrected owned {} {} q 0).toOption.any fun _ => true) (by decide +kernel)
  simp only [Bool.and_eq_true, beq_iff_eq, decide_eq_true_eq] at hall
  obtain ⟨⟨⟨⟨⟨⟨hone, hmain⟩, hanswered⟩, hclause⟩, hside⟩, hjoinable⟩, hcorrected⟩ := hall
  obtain ⟨o, ho, -⟩ := exists_ok_of_any hcorrected
  obtain ⟨change, hchange, hends⟩ :=
    corrected_joins hq (show (0 : Int) < ({} : Repair.Bounds).maxPasses by decide) hmain (by decide) hanswered
      ⟨hclause, hside⟩ hjoinable
  exact ⟨q, hq, hone, change, hchange, hends, o, ho⟩

end Validator

end Soql
