import Mathlib.Data.List.Induction
import Mathlib.Data.List.Nodup
import Soql.Proofs.Query.LooseNames
import Soql.Proofs.Schema.Catalog
import Soql.Proofs.Text.Pattern
import Soql.Proofs.Validation.PathErrors
import Soql.Proofs.Validation.RuleNames
import Soql.Proofs.Validation.Suits

namespace Soql

open Text

namespace Loose

/-- A query that does nothing but select some fields. -/
def salvaged (object : String) (fields : List String) : Query :=
  { object, items := fields.map (.field · none), tolerant := true }

end Loose

namespace Validator

open PathWalk

variable {context : Context} {object : String} {main : SObject} {fields : List String}

/-- Of a query that selects some fields only the rules on their paths can say that it is wrong. -/
theorem errors_validate_salvaged (validator : Validator) (hmain : context.get? object = some main)
    (fields : List String) :
    Message.errors (validator.validate (Loose.salvaged object fields) context) =
      Message.errors (pathRule (Loose.salvaged object fields) main context) ++
        Message.errors (junctionRule (Loose.salvaged object fields) main context) := by
  have hnone {α : Type} {f : SelectItem InnerQuery → Option α} (hf : ∀ path, f (.field path none) = none) :
      (Loose.salvaged object fields).items.filterMap f = [] := by
    rw [List.filterMap_eq_nil_iff]
    intro item hitem
    obtain ⟨path, -, rfl⟩ := List.mem_map.mp hitem
    exact hf path
  have haggregates : (Loose.salvaged object fields).aggregateNames = [] := hnone fun _ => rfl
  have hchildren : (Loose.salvaged object fields).children = [] := hnone fun _ => rfl
  have htypes : (Loose.salvaged object fields).typeOfs = [] := hnone fun _ => rfl
  have hsyntax : syntaxRules (Loose.salvaged object fields) = [] := by
    have hnamed : (Loose.salvaged object fields).items.any isMisnamed = false := by
      rw [List.any_eq_false]
      intro item hitem
      obtain ⟨path, -, rfl⟩ := List.mem_map.mp hitem
      simp [isMisnamed]
    rw [syntaxRules, aliasRule, hnamed]
    rfl
  have htooling : toolingRule (Loose.salvaged object fields) main.name = [] := by
    rw [toolingRule, haggregates]
    split <;> rfl
  have haggregate : aggregateRule (Loose.salvaged object fields) = [] := by
    rw [aggregateRule, QueryOf.hasAggregates, haggregates]
    rfl
  have htypeOf : typeOfRule (Loose.salvaged object fields) main context = [] := by
    rw [typeOfRule, htypes]
    rfl
  have hchild : childRule (Loose.salvaged object fields) main context = [] := by
    rw [childRule, hchildren]
    rfl
  -- There is no filter, so that the rules on conditions find nothing.
  have hfilter : semiJoinRule (Loose.salvaged object fields) context = [] ∧
      literalRule (Loose.salvaged object fields) (some main) context = [] ∧
        picklistRule (Loose.salvaged object fields) main context = [] :=
    ⟨rfl, rfl, rfl⟩
  rw [validate_of_main validator (q := Loose.salvaged object fields) hmain, hsyntax, htooling, haggregate,
    htypeOf, hchild, hfilter.1, hfilter.2.1, hfilter.2.2]
  simp only [Message.errors_append, governorRule_warns, List.nil_append, List.append_nil]

theorem segments_undotted {name : String} (h : '.' ∉ name.toList) : segments name = [name] := by
  have hone : segments (joined "." [name]) = [name] :=
    segments_joined (List.cons_ne_nil _ _) fun s hs => List.mem_singleton.mp hs ▸ h
  simpa [joined] using hone

/-- A name without a point resolves just if it is a field. -/
theorem resolves_undotted (context : Context) {name : String} (h : '.' ∉ name.toList) :
    Resolves context main name ↔ (main.field? name).isSome = true := by
  have hparts : (splitOwnName name main).2 = [name] := by
    rw [splitOwnName, segments_undotted h]
  rw [Resolves, hparts]
  constructor
  · rintro (⟨o, ho, hfield⟩ | ⟨hseveral, -⟩)
    · rwa [List.mem_singleton.mp ho] at hfield
    · exact absurd hseveral (lt_irrefl 1)
  · exact fun hfield => .field main (List.mem_singleton_self main) hfield

theorem pathFinding_undotted {r : Reference} (h : '.' ∉ r.path.toList) :
    pathFinding main context r = none ↔ (main.field? r.path).isSome = true := by
  rw [← resolves_undotted context h, ← walk_isReached, pathFinding, throughJunction_undotted h]
  cases walk context main r.path <;> simp [Outcome.isReached]

theorem references_salvaged (object : String) (fields : List String) :
    (Loose.salvaged object fields).references = fields.map (⟨.select, ·⟩) := by
  have hpaths : (Loose.salvaged object fields).items.flatMap SelectItem.fieldPaths = fields := by
    induction fields with
    | nil => rfl
    | cons f fields ih => exact congrArg (f :: ·) ih
  rw [QueryOf.references, hpaths]
  simp [Loose.salvaged, QueryOf.leaves]

/-- A query that selects names without points breaks no rule just if all of them are fields. -/
theorem errors_salvaged_nil_iff (validator : Validator) (hmain : context.get? object = some main)
    (hundotted : ∀ f ∈ fields, '.' ∉ f.toList) :
    Message.errors (validator.validate (Loose.salvaged object fields) context) = [] ↔
      ∀ f ∈ fields, (main.field? f).isSome = true := by
  have hreference : ∀ r ∈ (Loose.salvaged object fields).references, r.path ∈ fields := by
    intro r hr
    rw [references_salvaged] at hr
    obtain ⟨f, hf, rfl⟩ := List.mem_map.mp hr
    exact hf
  have hjunction : junctionRule (Loose.salvaged object fields) main context = [] :=
    junctionRule_of_direct fun r hr => throughJunction_undotted (hundotted _ (hreference r hr))
  rw [errors_validate_salvaged validator hmain, hjunction]
  change Message.errors (pathRule (Loose.salvaged object fields) main context) ++ [] = [] ↔ _
  rw [List.append_nil, errors_pathRule_nil_iff]
  constructor
  · intro hnone f hf
    have hr : (⟨.select, f⟩ : Reference) ∈ (Loose.salvaged object fields).references := by
      rw [references_salvaged]
      exact List.mem_map_of_mem hf
    have hunnamed : callAliases (Loose.salvaged object fields) = [] := by
      rw [callAliases, List.filterMap_eq_nil_iff]
      intro item hitem
      obtain ⟨path, -, rfl⟩ := List.mem_map.mp hitem
      rfl
    -- Of paths that differ in letter case only one is checked, and it stands for the others.
    obtain ⟨r, hchecked, hsame⟩ := exists_checkedReference hr (by rw [hunnamed]; exact List.not_mem_nil)
    have hfield := (pathFinding_undotted (hundotted _ (hreference r (mem_references_of_checked hchecked)))).mp
      (hnone r hchecked)
    rwa [field?_congr hsame] at hfield
  · intro hall r hr
    have hf := hreference r (mem_references_of_checked hr)
    exact (pathFinding_undotted (hundotted _ hf)).mpr (hall _ hf)

end Validator

/-- Names without repetitions, each where it occurred first: at that place none of those behind it has
occurred yet. -/
theorem pairwise_eraseDups {α : Type} [DecidableEq α] (l : List α) :
    l.eraseDups.Pairwise fun a b => ∃ before after, l = before ++ a :: after ∧ b ∉ before ++ [a] := by
  -- From the end: a further name either was there before or comes last.
  induction l using List.reverseRecOn with
  | nil => exact .nil
  | append_singleton l c ih =>
    have hfurther : l.eraseDups.Pairwise fun a b =>
        ∃ before after, l ++ [c] = before ++ a :: after ∧ b ∉ before ++ [a] := by
      apply ih.imp
      rintro a b ⟨before, after, hsplit, hb⟩
      exact ⟨before, after ++ [c], by simp [hsplit], hb⟩
    rw [List.eraseDups_append]
    by_cases hc : c ∈ l
    · have hnone : [c].removeAll l = [] := by simp [List.removeAll, hc]
      rw [hnone, List.eraseDups_nil, List.append_nil]
      exact hfurther
    · have hone : ([c].removeAll l).eraseDups = [c] := by simp [List.removeAll, hc, List.eraseDups_cons]
      rw [hone, List.pairwise_append]
      refine ⟨hfurther, by simp, fun a ha b hb => ?_⟩
      obtain rfl : b = c := by simpa using hb
      obtain ⟨before, after, hsplit⟩ := List.append_of_mem (List.mem_eraseDups.mp ha)
      refine ⟨before, after ++ [b], by simp [hsplit], fun hmem => hc ?_⟩
      rw [hsplit]
      rcases List.mem_append.mp hmem with hmem | hmem
      · exact List.mem_append_left _ hmem
      · exact List.mem_append_right _ (List.mem_singleton.mp hmem ▸ List.mem_cons_self)

namespace Loose

/-- A field of an object is meant by a name: it is the last part of the name in some letter case, and no
later field of the object is. -/
def Means (o : SObject) (name field : String) : Prop :=
  ∃ before after, o.fieldNames = before ++ field :: after ∧ lower field = lower (lastSegment name) ∧
    ∀ other ∈ after, lower other ≠ lower (lastSegment name)

/-- The fields of an object that some names mention, in the order of their first mentions. -/
structure Mentions (o : SObject) (names fields : List String) : Prop where
  once : fields.Nodup
  meant : ∀ f, f ∈ fields ↔ ∃ name ∈ names, Means o name f
  inOrder : fields.Pairwise fun f g => ∃ before name after, names = before ++ name :: after ∧
    Means o name f ∧ ∀ earlier ∈ before ++ [name], ¬Means o earlier g

variable {o : SObject}

theorem find?_means {name f : String} :
    o.fieldNames.reverse.find? (fun g => lower g == lower (lastSegment name)) = some f ↔ Means o name f := by
  rw [List.find?_eq_some_iff_append]
  constructor
  · rintro ⟨hf, after, before, hsplit, hafter⟩
    refine ⟨before.reverse, after.reverse, ?_, by simpa using hf, fun other hother => ?_⟩
    · have htwice := congrArg List.reverse hsplit
      simpa using htwice
    · simpa using hafter other (List.mem_reverse.mp hother)
  · rintro ⟨before, after, hsplit, hf, hafter⟩
    refine ⟨by simpa using hf, after.reverse, before.reverse, by simp [hsplit], fun other hother => ?_⟩
    simpa using hafter other (List.mem_reverse.mp hother)

/-- Where no two fields of an object differ in letter case only, a field is meant by each name whose last
part it is in some letter case. -/
theorem means_iff (hfields : (o.fieldNames.map lower).Nodup) {name f : String} :
    Means o name f ↔ f ∈ o.fieldNames ∧ lower f = lower (lastSegment name) := by
  constructor
  · rintro ⟨before, after, hsplit, hf, -⟩
    exact ⟨by simp [hsplit], hf⟩
  · rintro ⟨hmem, hf⟩
    obtain ⟨before, after, hsplit⟩ := List.append_of_mem hmem
    refine ⟨before, after, hsplit, hf, fun other hother hsame => ?_⟩
    rw [hsplit, List.map_append, List.map_cons, List.nodup_append, List.nodup_cons] at hfields
    exact hfields.2.1.1 (List.mem_map.mpr ⟨other, hother, hsame.trans hf.symm⟩)

theorem lower_ne_empty {s : String} (hs : s ≠ "") : lower s ≠ "" := by
  intro h
  have hchars : lowerAfter false s.toList = [] := by
    have := congrArg String.toList h
    rwa [lower, String.toList_ofList] at this
  exact lowerAfter_ne_nil false (fun hnil => hs (String.toList_eq_nil_iff.mp hnil)) hchars

/-- The last part of a name that is read is not empty. -/
theorem lastSegment_ne_empty {w : List Char} (h : IsName w) : lastSegment (.ofList w) ≠ "" := by
  obtain ⟨front, last, hlast, hword⟩ := h.ends
  have hpoint : last ≠ '.' := by
    rintro rfl
    exact absurd hword (by decide)
  have hmem := mem_lastSegment (s := .ofList w) (by rw [String.toList_ofList, hlast]) hpoint
  intro hempty
  rw [hempty] at hmem
  cases hmem

theorem isName_of_mem_names {text name : String} (h : name ∈ names text) : ∃ w, IsName w ∧ name = .ofList w := by
  obtain ⟨hmem, -⟩ := List.mem_filter.mp h
  obtain ⟨w, hw, rfl⟩ := List.mem_map.mp hmem
  exact ⟨w, (reads_iff.mpr rfl).isName w hw, rfl⟩

/-- The fields looked for in a text are those that its names mention, in the order of the mentions. -/
theorem mentions_columns (o : SObject) (text : String) : Mentions o (names text) (columns text o.fieldNames) := by
  -- A field without a name would be left out, but no name that is read ends in such a part.
  have hmeans {name : String} (hname : name ∈ names text) (f : String) :
      (o.fieldNames.reverse.find? fun g => lower g == lower (lastSegment name)).filter (!·.isEmpty) = some f ↔
        Means o name f := by
    rw [Option.filter_eq_some_iff, find?_means, and_iff_left_iff_imp]
    rintro ⟨-, -, -, hf, -⟩
    obtain ⟨w, hw, rfl⟩ := isName_of_mem_names hname
    have hne : f ≠ "" := by
      rintro rfl
      exact lower_ne_empty (lastSegment_ne_empty hw) hf.symm
    simpa using hne
  unfold columns
  refine ⟨nodup_eraseDups _, fun f => ?_, ?_⟩
  · rw [List.mem_eraseDups, List.mem_filterMap]
    exact exists_congr fun name => and_congr_right fun hname => hmeans hname f
  · apply (pairwise_eraseDups _).imp
    rintro f g ⟨found, later, hfound, hg⟩
    obtain ⟨before, rest, hnames, hbefore, hrest⟩ := List.filterMap_eq_append_iff.mp hfound
    obtain ⟨skipped, name, after, rfl, hskipped, hname, -⟩ := List.filterMap_eq_cons_iff.mp hrest
    rw [← List.append_assoc] at hnames
    have hall : ∀ earlier ∈ before ++ skipped ++ [name], earlier ∈ names text := by
      intro earlier hearlier
      rw [hnames]
      rcases List.mem_append.mp hearlier with hearlier | hearlier
      · exact List.mem_append_left _ hearlier
      · exact List.mem_append_right _ (List.mem_singleton.mp hearlier ▸ List.mem_cons_self)
    refine ⟨before ++ skipped, name, after, hnames, (hmeans (hall name (by simp)) f).mp hname,
      fun earlier hearlier hmeant => hg ?_⟩
    -- An earlier name that means the later field would have brought it up to the place of the first.
    have hlooked := (hmeans (hall earlier hearlier) g).mpr hmeant
    rw [List.mem_append, List.mem_append, List.mem_singleton] at hearlier
    rcases hearlier with (hearlier | hearlier) | rfl
    · rw [← hbefore]
      exact List.mem_append_left _ (List.mem_filterMap.mpr ⟨earlier, hearlier, hlooked⟩)
    · rw [hskipped earlier hearlier] at hlooked
      cases hlooked
    · rw [hname] at hlooked
      obtain rfl := Option.some.inj hlooked
      simp

def coreOf (o : SObject) : List String :=
  (Vocabulary.coreFields.filterMap o.field?).map (·.name)

theorem lower_of_field? {name : String} {f : Field} (h : o.field? name = some f) :
    f.name ∈ o.fieldNames ∧ lower f.name = lower name := by
  have hsame := List.find?_some (p := fun f : Field => sameLower f.name name) h
  exact ⟨List.mem_map_of_mem (List.mem_of_find?_eq_some h), beq_iff_eq.mp hsame⟩

theorem isSome_field? {name : String} (h : name ∈ o.fieldNames) : (o.field? name).isSome = true := by
  obtain ⟨f, hf, rfl⟩ := List.mem_map.mp h
  exact List.find?_isSome.mpr ⟨f, hf, beq_self_eq_true _⟩

theorem nodup_lower_coreOf (o : SObject) : ((coreOf o).map lower).Nodup := by
  have hsublist (cores : List String) :
      (((cores.filterMap o.field?).map (·.name)).map lower).Sublist (cores.map lower) := by
    induction cores with
    | nil => exact .slnil
    | cons core cores ih =>
      rw [List.filterMap_cons]
      cases hcore : o.field? core with
      | none => exact ih.cons _
      | some f =>
        rw [List.map_cons, List.map_cons, (lower_of_field? hcore).2]
        exact ih.cons_cons _
  have hcores : (Vocabulary.coreFields.map lower).Nodup := by decide +kernel
  exact hcores.sublist (hsublist _)

/-- Adding one after the other what is not there yet. -/
theorem foldl_add {items : List String} (hitems : items.Nodup) (start : List String) :
    items.foldl (fun fields f => if fields.contains f then fields else fields ++ [f]) start =
      start ++ items.filter (· ∉ start) := by
  induction items generalizing start with
  | nil => simp
  | cons f items ih =>
    rw [List.nodup_cons] at hitems
    rw [List.foldl_cons, ih hitems.2]
    by_cases hf : f ∈ start
    · simp [hf]
    · have hrest : items.filter (· ∉ start ++ [f]) = items.filter (· ∉ start) := by
        apply List.filter_congr
        intro g hg
        have hne : g ≠ f := fun h => hitems.1 (h ▸ hg)
        simp [hne]
      rw [if_neg (by simpa using hf), hrest, List.filter_cons_of_pos (by simpa using hf), List.append_assoc]
      rfl

theorem point_mem_lower {s : String} : '.' ∈ (lower s).toList ↔ '.' ∈ s.toList := by
  have hcount : (lowerChars s.toList).count '.' = s.toList.count '.' :=
    count_lowerAfter (by decide) (by decide) false s.toList
  rw [lower, String.toList_ofList, ← List.count_pos_iff, hcount, List.count_pos_iff]

theorem point_not_mem_lastSegment (path : String) : '.' ∉ (lastSegment path).toList := by
  intro hpoint
  rw [lastSegment, List.getLastD_eq_getLast?] at hpoint
  cases hlast : (segments path).getLast? with
  | none =>
    rw [hlast] at hpoint
    cases hpoint
  | some last =>
    rw [hlast] at hpoint
    obtain ⟨piece, hpiece, rfl⟩ := List.mem_map.mp (List.mem_of_getLast? hlast)
    rw [Option.getD_some, String.toList_ofList] at hpoint
    exact absurd (mem_pieces_not_sep hpiece hpoint) (by decide)

def remaining (o : SObject) (mentioned : List String) : List String :=
  (coreOf o).filter (· ∉ mentioned)

/-- A query that is saved selects the fields that the text mentions and then the remaining core fields, or
the id if there are none. -/
theorem selection_eq (text : String) (o : SObject) :
    selection text o =
      if columns text o.fieldNames ++ remaining o (columns text o.fieldNames) = [] then ["Id"]
      else columns text o.fieldNames ++ remaining o (columns text o.fieldNames) := by
  have hcore : (coreOf o).Nodup := List.Nodup.of_map lower (nodup_lower_coreOf o)
  unfold selection
  dsimp only
  rw [← coreOf, foldl_add hcore, ← remaining]
  simp only [List.isEmpty_iff]

/-- Where nothing is chosen there is no id. -/
theorem no_id_of_nil {mentioned : List String} (hnone : mentioned ++ remaining o mentioned = []) :
    ¬(o.field? "Id").isSome = true := by
  intro hid
  obtain ⟨f, hf⟩ := Option.isSome_iff_exists.mp hid
  obtain ⟨hmentioned, hremaining⟩ := List.append_eq_nil_iff.mp hnone
  have hcore : f.name ∈ coreOf o :=
    List.mem_map_of_mem (List.mem_filterMap.mpr ⟨"Id", by decide, hf⟩)
  have hmem : f.name ∈ remaining o mentioned := List.mem_filter.mpr ⟨hcore, by simp [hmentioned]⟩
  rw [hremaining] at hmem
  cases hmem

section Chosen

variable {names mentioned : List String} (h : Mentions o names mentioned)

include h

/-- The chosen names are fields of the object, and hold no point. -/
theorem Mentions.fields {f : String} (hf : f ∈ mentioned ++ remaining o mentioned) :
    f ∈ o.fieldNames ∧ '.' ∉ f.toList := by
  rcases List.mem_append.mp hf with hf | hf
  · obtain ⟨name, -, before, after, hsplit, hsame, -⟩ := (h.meant f).mp hf
    refine ⟨by simp [hsplit], ?_⟩
    rw [← point_mem_lower, hsame, point_mem_lower]
    exact point_not_mem_lastSegment name
  · obtain ⟨field, hfield, rfl⟩ := List.mem_map.mp (List.mem_filter.mp hf).1
    obtain ⟨core, hcore, hfound⟩ := List.mem_filterMap.mp hfield
    obtain ⟨hmem, hsame⟩ := lower_of_field? hfound
    have hundotted : ∀ core ∈ Vocabulary.coreFields, '.' ∉ core.toList := by decide
    refine ⟨hmem, ?_⟩
    rw [← point_mem_lower, hsame, point_mem_lower]
    exact hundotted core hcore

theorem Mentions.nodup : (mentioned ++ remaining o mentioned).Nodup := by
  have hcore : (coreOf o).Nodup := List.Nodup.of_map lower (nodup_lower_coreOf o)
  refine List.nodup_append'.mpr ⟨h.once, hcore.filter _, fun f hf hrest => ?_⟩
  simpa [hf] using (List.mem_filter.mp hrest).2

theorem Mentions.nodup_lower (hfields : (o.fieldNames.map lower).Nodup) :
    ((mentioned ++ remaining o mentioned).map lower).Nodup := by
  apply List.Nodup.map_on _ h.nodup
  intro f hf g hg hsame
  exact List.inj_on_of_nodup_map hfields (h.fields hf).1 (h.fields hg).1 hsame

end Chosen

variable {context : Context} {q : Query} {text : String}

/-- What is saved of a text selects some fields of the object that it names. -/
theorem extract_eq_ok {resolve : String → Option SObject} (h : extract text resolve = .ok q) :
    ∃ name o, mainObject text = some name ∧ resolve name = some o ∧ q = salvaged o.name (selection text o) := by
  unfold extract at h
  cases hname : mainObject text with
  | none =>
    rw [hname] at h
    cases h
  | some name =>
    rw [hname] at h
    cases ho : resolve name with
    | none =>
      simp only [ho] at h
      cases h
    | some o =>
      simp only [ho] at h
      exact ⟨name, o, rfl, ho, (Except.ok.inj h).symm⟩

/-- What is saved of a text is a query of the object that the text names, which selects, each once, the
fields that the names of the text mention, in the order of the mentions, and then the remaining core fields
in theirs. It breaks no rule, unless there are no such fields and the id is selected in their place. -/
theorem extract_salvaged (hextract : extract text context.get? = .ok q) (hkeyed : context.catalog.Keyed)
    (validator : Validator) :
    ∃ name o tokens mentioned fields, mainObject text = some name ∧ context.get? name = some o ∧
      Reads false (withoutLiterals text.toList) tokens ∧
      Mentions o ((tokens.map String.ofList).filter (!Vocabulary.isKeyword ·)) mentioned ∧
      q = salvaged o.name fields ∧
      (fields = if mentioned ++ remaining o mentioned = [] then ["Id"] else mentioned ++ remaining o mentioned) ∧
      fields.Nodup ∧ ((o.fieldNames.map lower).Nodup → (fields.map lower).Nodup) ∧
      (Message.errors (validator.validate q context) = [] ↔ mentioned ++ remaining o mentioned ≠ []) := by
  obtain ⟨name, o, hname, ho, rfl⟩ := extract_eq_ok hextract
  have hmentions := mentions_columns o text
  have hmain : context.get? o.name = some o := hkeyed.get?_name ho
  refine ⟨name, o, _, columns text o.fieldNames, selection text o, hname, ho, reads_iff.mpr rfl, hmentions, rfl,
    selection_eq text o, ?_⟩
  rw [selection_eq]
  split
  case isTrue hnone =>
    refine ⟨by decide, fun _ => by decide, ?_⟩
    -- An object without core fields has no id, so that the path rule finds one that is missing.
    rw [Validator.errors_salvaged_nil_iff validator hmain (by decide)]
    exact iff_of_false (fun hid => no_id_of_nil hnone (hid "Id" (List.mem_singleton_self _))) (not_not.mpr hnone)
  case isFalse hsome =>
    refine ⟨hmentions.nodup, hmentions.nodup_lower, ?_⟩
    rw [Validator.errors_salvaged_nil_iff validator hmain fun f hf => (hmentions.fields hf).2]
    exact iff_of_true (fun f hf => isSome_field? (hmentions.fields hf).1) hsome

/-- A draft with a bracket that is not closed, a field in another letter case, one that is no field, and one
in a literal. -/
def broken : String :=
  "SELECT rating, Shoe, Account.Name FROM account WHERE (Industry LIKE 'BillingCity' AND"

theorem extract_salvaged_broken :
    extract broken Validator.owned.get? = .ok (salvaged "Account"
        ["Rating", "Name", "Industry", "Id", "CreatedDate", "SystemModstamp"]) ∧
      Validator.owned.catalog.Keyed ∧
      Message.errors (Validator.validate {} (salvaged "Account"
        ["Rating", "Name", "Industry", "Id", "CreatedDate", "SystemModstamp"]) Validator.owned) = [] := by
  have hextract : extract broken Validator.owned.get? = .ok (salvaged "Account"
      ["Rating", "Name", "Industry", "Id", "CreatedDate", "SystemModstamp"]) := by
    decide +kernel
  have hkeyed : Validator.owned.catalog.Keyed := Catalog.keyed_ofObjects _
  obtain ⟨_, o, _, mentioned, fields, -, -, -, -, hq, hfields, -, -, herrors⟩ :=
    extract_salvaged hextract hkeyed {}
  refine ⟨hextract, hkeyed, herrors.mpr fun hnone => ?_⟩
  rw [if_pos hnone] at hfields
  rw [hfields] at hq
  have hlength := congrArg (fun q : Query => q.items.length) hq
  simp [salvaged] at hlength

end Loose

end Soql
