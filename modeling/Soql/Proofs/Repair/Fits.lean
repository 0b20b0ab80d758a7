import Soql.Proofs.Query.Short
import Soql.Proofs.Query.Sturdy
import Soql.Proofs.Repair.Performed

namespace Soql

open Text Token Query

section Leaves

variable {κ : Type} {inner : κ → Prop} (change : Leaf κ → Leaf κ)

theorem mapAllLeaves_eq (fs : List (Filter κ)) :
    Filter.mapAllLeaves change fs = fs.map (Filter.mapLeaves change) := by
  induction fs with
  | nil => rfl
  | cons f fs ih => rw [Filter.mapAllLeaves, List.map_cons, ih]

mutual

theorem leaves_mapLeaves (f : Filter κ) : (f.mapLeaves change).leaves = f.leaves.map change := by
  cases f with
  | leaf l => rfl
  | combine c operands => exact leavesOfAll_mapAllLeaves operands
  | negation operand => exact leaves_mapLeaves operand

theorem leavesOfAll_mapAllLeaves (fs : List (Filter κ)) :
    Filter.leavesOfAll (Filter.mapAllLeaves change fs) = (Filter.leavesOfAll fs).map change := by
  cases fs with
  | nil => rfl
  | cons f rest =>
    rw [Filter.mapAllLeaves, Filter.leavesOfAll, Filter.leavesOfAll, List.map_append,
      leaves_mapLeaves f, leavesOfAll_mapAllLeaves rest]

end

theorem leaves_mapFilter (q : QueryOf κ) : (q.mapFilter change).leaves = q.leaves.map change := by
  unfold QueryOf.leaves QueryOf.mapFilter
  cases q.filter with
  | none => rfl
  | some f => exact leaves_mapLeaves change f

variable {change}

/-- A filter is read again when each of its conditions is. -/
theorem Filter.Legible.mapLeaves {f : Filter κ} (h : f.Legible inner)
    (hchange : ∀ l ∈ f.leaves, (change l).Legible inner) : (f.mapLeaves change).Legible inner := by
  induction h with
  | leaf h => exact .leaf (hchange _ (List.mem_singleton_self _))
  | @combine c f g others h ih =>
    rw [Filter.mapLeaves, mapAllLeaves_eq]
    apply Filter.Legible.combine
    rw [← List.map_cons, ← List.map_cons]
    intro operand hoperand
    obtain ⟨before, hbefore, rfl⟩ := List.mem_map.mp hoperand
    apply ih before hbefore
    intro l hl
    apply hchange l
    rw [Filter.leaves, leavesOfAll_eq]
    exact List.mem_flatMap.mpr ⟨before, hbefore, hl⟩
  | negation h ih => exact .negation (ih hchange)

theorem Filter.Legible.leaves {f : Filter κ} (h : f.Legible inner) : ∀ l ∈ f.leaves, l.Legible inner := by
  induction h with
  | leaf h =>
    intro l hl
    rwa [List.mem_singleton.mp hl]
  | combine h ih =>
    intro l hl
    rw [Filter.leaves, leavesOfAll_eq] at hl
    obtain ⟨operand, hoperand, hl⟩ := List.mem_flatMap.mp hl
    exact ih operand hoperand l hl
  | negation h ih => exact ih

theorem mem_leaves {q : QueryOf κ} {l : Leaf κ} : l ∈ q.leaves ↔ ∃ f ∈ q.filter, l ∈ f.leaves := by
  unfold QueryOf.leaves
  cases q.filter with
  | none => simp
  | some f => simp

theorem QueryOf.Legible.leaves {q : QueryOf κ} {atEnd : Prop} (h : q.Legible inner atEnd) :
    ∀ l ∈ q.leaves, l.Legible inner := by
  intro l hl
  obtain ⟨f, hf, hl⟩ := mem_leaves.mp hl
  exact (h.filter f hf).leaves l hl

/-- The counts of a query that is read again can be written. -/
theorem Query.isShort_of_legible {q : Query} {atEnd : Prop} (h : QueryOf.Legible InnerLegible atEnd q) :
    q.isShort = true := by
  rw [isShort_iff]
  refine ⟨shortCounts_of_counts h.limit h.offset, ?_⟩
  intro inner hinner
  have hlegible : InnerLegible inner := by
    rcases mem_inners.mp hinner with hitem | ⟨j, hl, rfl⟩
    · exact h.items.2 _ hitem
    · exact (h.leaves _ hl).2
  exact shortCounts_of_counts hlegible.limit hlegible.offset

theorem field_withField (l : Leaf κ) (field : String) : (l.withField field).field = field := by
  cases l <;> rfl

theorem mem_comparisons {q : QueryOf κ} {c : Comparison} : c ∈ q.comparisons ↔ .compare c ∈ q.leaves := by
  unfold QueryOf.comparisons
  rw [List.mem_filterMap]
  constructor
  · rintro ⟨l, hl, hc⟩
    cases l with
    | compare c' =>
      cases hc
      exact hl
    | semiJoin j => cases hc
  · intro hc
    exact ⟨.compare c, hc, rfl⟩

end Leaves

theorem object_of_isIdent {name : String} (h : isIdent name = true) :
    (word name).Whole ∧ name.toList.contains '.' = false := by
  refine ⟨whole_of_isPath (isPath_of_isIdent h), ?_⟩
  rw [← Bool.not_eq_true, List.contains_iff_mem]
  exact point_not_mem_of_isIdent h

namespace QueryOf

variable {κ : Type} {inner child : κ → Prop} {q : QueryOf κ}

theorem Sturdy.withObject (h : q.Sturdy inner child) {new : String} (hnew : isIdent new = true) :
    QueryOf.Sturdy inner child { q with object := new } :=
  ⟨{ h.legible with object := object_of_isIdent hnew }, h.items, h.leaves, h.groupBy, h.orderBy⟩

theorem Sturdy.mapItems (h : q.Sturdy inner child) {f : SelectItem κ → SelectItem κ}
    (hf : ∀ item, item.Legible inner → item.Sturdy child → (f item).Legible inner ∧ (f item).Sturdy child) :
    QueryOf.Sturdy inner child { q with items := q.items.map f } := by
  have hall : ∀ item ∈ q.items.map f, item.Legible inner ∧ item.Sturdy child := by
    intro item hitem
    obtain ⟨before, hbefore, rfl⟩ := List.mem_map.mp hitem
    exact hf before (h.legible.items.2 before hbefore) (h.items before hbefore)
  have hne : q.items.map f ≠ [] := by simpa using h.legible.items.1
  exact ⟨{ h.legible with items := ⟨hne, fun item hitem => (hall item hitem).1⟩ },
    fun item hitem => (hall item hitem).2, h.leaves, h.groupBy, h.orderBy⟩

theorem Sturdy.mapFilter (h : q.Sturdy inner child) {change : Leaf κ → Leaf κ}
    (hlegible : ∀ l ∈ q.leaves, (change l).Legible inner)
    (hfield : ∀ l ∈ q.leaves, Orderly (change l).field) : (q.mapFilter change).Sturdy inner child := by
  refine ⟨{ h.legible with filter := ?_ }, h.items, ?_, h.groupBy, h.orderBy⟩
  · intro f hf
    obtain ⟨before, hbefore, rfl⟩ := Option.map_eq_some_iff.mp hf
    apply (h.legible.filter before hbefore).mapLeaves
    intro l hl
    exact hlegible l (mem_leaves.mpr ⟨before, hbefore, hl⟩)
  · intro l hl
    rw [leaves_mapFilter] at hl
    obtain ⟨before, hbefore, rfl⟩ := List.mem_map.mp hl
    exact hfield before hbefore

theorem Sturdy.withGroups (h : q.Sturdy inner child) {groups : List String}
    (hgroups : ∀ e ∈ groups, Orderly e) : QueryOf.Sturdy inner child { q with groupBy := groups } :=
  ⟨{ h.legible with groupBy := groups_of_orderly hgroups }, h.items, h.leaves, hgroups, h.orderBy⟩

theorem Legible.having_closed (h : q.Legible inner False) {last : Prop} :
    ∀ text ∈ q.having, ∃ depth, IsHaving depth text ∧ (depth = 0 ∨ False ∧ last) := by
  intro text htext
  obtain ⟨depth, hdepth, hend⟩ := h.having text htext
  exact ⟨depth, hdepth, hend.imp_right fun hfalse => hfalse.1.elim⟩

theorem Sturdy.withOrder (h : q.Sturdy inner child) {keys : List OrderKey}
    (hkeys : ∀ k ∈ keys, Orderly k.field) : QueryOf.Sturdy inner child { q with orderBy := keys } := by
  refine ⟨{ h.legible with having := h.legible.having_closed, orderBy := ?_ }, h.items, h.leaves,
    h.groupBy, hkeys⟩
  intro k hk
  obtain ⟨name, -, hname⟩ := (hkeys k hk).expression
  exact ⟨name, hname⟩

theorem Sturdy.withLimit (h : q.Sturdy inner child) {count : Nat} (hcount : IsCount count) :
    QueryOf.Sturdy inner child { q with limit := some count } := by
  refine ⟨{ h.legible with having := h.legible.having_closed, limit := ?_ }, h.items, h.leaves,
    h.groupBy, h.orderBy⟩
  rintro n hn
  obtain rfl : (count : Int) = n := by simpa using hn
  exact ⟨count, rfl, hcount⟩

section Rename

variable {old new : String} (hr : Renames old new)

include hr

theorem renameItem_sturdy {item : SelectItem κ} (hlegible : item.Legible inner) (h : item.Sturdy child) :
    (renameItem old new item).Legible inner ∧ (renameItem old new item).Sturdy child := by
  cases item with
  | field path alias? =>
    have hproper := hr.proper h
    exact ⟨⟨selectable_of_isProper hproper, hlegible.2⟩, hproper⟩
  | call name args alias? =>
    obtain ⟨hname, hargs, hfirst, halias⟩ := h
    obtain ⟨hselectable, -, hlast, hnamed⟩ := hlegible
    have hargs' := hargs.renamed hr
    refine ⟨⟨hselectable, hargs'.arguments, getLast?_renamed hr hlast, hnamed⟩, hname, hargs', ?_, halias⟩
    intro e he
    rw [List.head?_map] at he
    obtain ⟨before, hbefore, rfl⟩ := Option.map_eq_some_iff.mp he
    exact (hfirst before hbefore).renamed hr
  | child q => exact ⟨hlegible, h⟩
  | typeOf relationship branches otherwise => exact ⟨hlegible, h⟩

theorem withField_legible {l : Leaf κ} (hlegible : l.Legible inner) (h : Orderly l.field) :
    (l.withField (renamePath old new l.field)).Legible inner := by
  have hfield := (h.renamed hr).conditionOn
  cases l with
  | compare c => exact ⟨hfield, hlegible.2⟩
  | semiJoin j => exact ⟨hfield, hlegible.2⟩

theorem Sturdy.renameIn (h : q.Sturdy inner child) (clauses : List Clause) :
    (q.renameIn clauses old new).Sturdy inner child := by
  -- One clause after the other, from the first to the last.
  let q₁ : QueryOf κ :=
    { q with items := if clauses.contains .select then q.items.map (renameItem old new) else q.items }
  have h₁ : q₁.Sturdy inner child := by
    unfold q₁
    split
    · exact h.mapItems fun item => renameItem_sturdy hr
    · exact h
  let q₂ : QueryOf κ :=
    { q₁ with
      filter :=
        if clauses.contains .filter then
          q₁.filter.map (·.mapLeaves fun l => l.withField (renamePath old new l.field))
        else q₁.filter }
  have h₂ : q₂.Sturdy inner child := by
    unfold q₂
    split
    · apply h₁.mapFilter
      · exact fun l hl => withField_legible hr (h.legible.leaves l hl) (h.leaves l hl)
      · intro l hl
        rw [field_withField]
        exact (h.leaves l hl).renamed hr
    · exact h₁
  let q₃ : QueryOf κ :=
    { q₂ with groupBy := if clauses.contains .group then q.groupBy.map (renamePath old new) else q.groupBy }
  have h₃ : q₃.Sturdy inner child := by
    unfold q₃
    split
    · apply h₂.withGroups
      intro e he
      obtain ⟨before, hbefore, rfl⟩ := List.mem_map.mp he
      exact (h.groupBy before hbefore).renamed hr
    · exact h₂
  change QueryOf.Sturdy inner child
    { q₃ with
      orderBy :=
        if clauses.contains .order then
          q.orderBy.map fun k => { k with field := renamePath old new k.field }
        else q.orderBy }
  split
  · apply h₃.withOrder
    intro k hk
    obtain ⟨before, hbefore, rfl⟩ := List.mem_map.mp hk
    exact (h.orderBy before hbefore).renamed hr
  · exact h₃

end Rename

end QueryOf

namespace Action

/-- A correction brings nothing but what can stand where it is written. -/
def Fits : Action → Prop
  | swapObject _ new => isIdent new = true
  | swapField old new _ => Renames old new
  | fixPath old corrected => Renames old corrected
  | fixChildField _ old new => Renames old new
  | swapChild _ new => isIdent new = true
  | addGroupBy fields => ∀ e ∈ fields, Orderly e
  | applyLimit limit => ∃ count : Nat, limit = count ∧ IsCount count
  | stripAs => True
  | replaceLiteral _ old new => Exchangeable old ∧ Exchangeable new
  | toSemiJoin path junction link parentField => isProper path = true ∧ 1 < (segments path).length ∧
    isIdent junction = true ∧ isProper link = true ∧ isProper parentField = true

theorem relabel_field (field old new : String) (l : Leaf InnerQuery) : (relabel field old new l).field = l.field := by
  cases l with
  | compare c =>
    rw [relabel]
    split <;> rfl
  | semiJoin j => rfl

/-- What a comparison has become when a literal was exchanged. -/
theorem relabel_compare {old new : String} (hold : Exchangeable old) (hnew : Exchangeable new) {field : String}
    {c : Comparison} (hfits : ValueFits c.operator c.value) (htidy : isTidyValue c.value = true) :
    ∃ value, relabel field old new (.compare c) = .compare { c with value } ∧
      ValueFits c.operator value ∧ isTidyValue value = true := by
  rw [relabel]
  split
  · obtain ⟨hfits', htidy'⟩ := exchange_fits hold hnew hfits htidy
    exact ⟨_, rfl, hfits', htidy'⟩
  · exact ⟨c.value, rfl, hfits, htidy⟩

theorem joinThrough_legible {junction link parentField rest : String} {c : Comparison}
    (hjunction : isIdent junction = true) (hlink : isProper link = true) (hrest : isProper rest = true)
    (hvalue : ValueFits c.operator c.value) :
    InnerLegible (joinThrough junction link parentField rest c).query where
  object := object_of_isIdent hjunction
  items := ⟨List.cons_ne_nil _ _, by
    intro item hitem
    rw [List.mem_singleton.mp hitem]
    exact ⟨selectable_of_isProper hlink, fun a ha => by cases ha⟩⟩
  scope := fun s hs => by cases hs
  filter := by
    intro f hf
    cases hf
    exact .leaf ⟨(Orderly.name hrest).conditionOn, hvalue⟩
  groupBy := groups_of_orderly fun e he => by cases he
  having := fun h hh => by cases hh
  orderBy := fun k hk => by cases hk
  limit := fun n hn => by cases hn
  offset := fun n hn => by cases hn
  tolerant := rfl

theorem intoSemiJoin_legible {path junction link parentField : String} (hpath : isProper path = true)
    (hdots : 1 < (segments path).length) (hjunction : isIdent junction = true) (hlink : isProper link = true)
    (hparent : isProper parentField = true) {l : Leaf InnerQuery} (hl : l.Legible InnerLegible) :
    (intoSemiJoin path junction link parentField l).Legible InnerLegible := by
  cases l with
  | compare c =>
    rw [intoSemiJoin]
    split
    · exact ⟨(Orderly.name hparent).conditionOn,
        joinThrough_legible hjunction hlink (isProper_afterFirstPoint hpath hdots) hl.2⟩
    · exact hl
  | semiJoin j => exact hl

theorem intoSemiJoin_field (path junction link parentField : String) (l : Leaf InnerQuery) :
    (intoSemiJoin path junction link parentField l).field = l.field ∨
      (intoSemiJoin path junction link parentField l).field = parentField := by
  cases l with
  | compare c =>
    rw [intoSemiJoin]
    split
    · exact .inr rfl
    · exact .inl rfl
  | semiJoin j => exact .inl rfl

/-- A comparison after a correction of filters was one before, or it has become none. -/
theorem intoSemiJoin_compare {path junction link parentField : String} {l : Leaf InnerQuery} {c : Comparison}
    (h : intoSemiJoin path junction link parentField l = .compare c) : l = .compare c := by
  cases l with
  | compare c' =>
    rw [intoSemiJoin] at h
    split at h
    · cases h
    · exact h
  | semiJoin j => cases h

theorem changeChildren_sturdy {q : Query} (h : q.Sturdy) (relationship : String)
    {change : InnerQuery → InnerQuery} (hchange : ∀ inner : InnerQuery, inner.Sturdy → (change inner).Sturdy) :
    (changeChildren relationship change q).Sturdy := by
  refine ⟨h.clauses.mapItems ?_, h.values⟩
  intro item hlegible hitem
  cases item with
  | child inner =>
    have hinner : InnerQuery.Sturdy (if sameLower inner.object relationship then change inner else inner) := by
      split
      · exact hchange inner hitem
      · exact hitem
    exact ⟨hinner.legible, hinner⟩
  | field path alias? => exact ⟨hlegible, hitem⟩
  | call name args alias? => exact ⟨hlegible, hitem⟩
  | typeOf relationship branches otherwise => exact ⟨hlegible, hitem⟩

/-- A select item is read again without the keyword for its name. -/
theorem stripItem_sturdy {κ : Type} {inner child : κ → Prop} {item : SelectItem κ}
    (hlegible : item.Legible inner) (h : item.Sturdy child) :
    (stripItem item).Legible inner ∧ (stripItem item).Sturdy child := by
  cases item with
  | field path alias? => exact ⟨⟨hlegible.1, fun a ha => by cases ha⟩, h⟩
  | call name args alias? =>
    obtain ⟨hselectable, hargs, hlast, hnamed⟩ := hlegible
    obtain ⟨hname, hplain, hfirst, hbare⟩ := h
    refine ⟨⟨hselectable, hargs, hlast, ?_⟩, hname, hplain, hfirst, ?_⟩
    · intro a ha
      obtain ⟨before, hbefore, rfl⟩ := Option.map_eq_some_iff.mp ha
      exact ⟨(hnamed before hbefore).1, .inr ⟨rfl, hbare before hbefore⟩⟩
    · intro a ha
      obtain ⟨before, hbefore, rfl⟩ := Option.map_eq_some_iff.mp ha
      exact hbare before hbefore
  | child q => exact ⟨hlegible, h⟩
  | typeOf relationship branches otherwise => exact ⟨hlegible, h⟩

theorem groupAlso_sturdy {q : Query} (h : q.Sturdy) {fields : List String} (hfields : ∀ e ∈ fields, Orderly e) :
    Query.Sturdy (q.groupAlso fields) := by
  refine ⟨h.clauses.withGroups ?_, h.values⟩
  intro e he
  rcases List.mem_append.mp he with he | he
  · exact h.clauses.groupBy e he
  · exact hfields e (List.mem_filter.mp he).1

theorem renameIn_sturdy {q : Query} (h : q.Sturdy) {old new : String} (hr : Renames old new)
    (clauses : List Clause) : Query.Sturdy (q.renameIn clauses old new) := by
  refine ⟨h.clauses.renameIn hr clauses, ?_⟩
  intro c hc
  rw [mem_comparisons] at hc
  by_cases hclause : clauses.contains .filter = true
  · have hleaves : (q.renameIn clauses old new).leaves =
        q.leaves.map fun l => l.withField (renamePath old new l.field) := by
      rw [← leaves_mapFilter]
      unfold QueryOf.leaves QueryOf.renameIn QueryOf.mapFilter
      simp only [hclause, if_true]
    rw [hleaves] at hc
    obtain ⟨l, hl, heq⟩ := List.mem_map.mp hc
    cases l with
    | compare before =>
      cases heq
      exact h.values before (mem_comparisons.mpr hl)
    | semiJoin j => cases heq
  · have hleaves : (q.renameIn clauses old new).leaves = q.leaves := by
      unfold QueryOf.leaves QueryOf.renameIn
      simp only [hclause]
      rfl
    rw [hleaves] at hc
    exact h.values c (mem_comparisons.mpr hc)

theorem relabelFilter_sturdy {q : Query} (h : q.Sturdy) {old new : String} (hold : Exchangeable old)
    (hnew : Exchangeable new) (field : String) : Query.Sturdy (q.mapFilter (relabel field old new)) := by
  -- Each comparison fits its operator and is tidy, before and after.
  have hvalue (c : Comparison) (hc : .compare c ∈ q.leaves) :
      ∃ value, relabel field old new (.compare c) = .compare { c with value } ∧
        ValueFits c.operator value ∧ isTidyValue value = true := by
    obtain ⟨-, hfits⟩ : Leaf.Legible InnerLegible (.compare c) := h.clauses.legible.leaves _ hc
    exact relabel_compare hold hnew hfits (h.values c (mem_comparisons.mpr hc))
  refine ⟨h.clauses.mapFilter ?_ ?_, ?_⟩
  · intro l hl
    have hlegible := h.clauses.legible.leaves l hl
    cases l with
    | compare c =>
      obtain ⟨value, heq, hfits, -⟩ := hvalue c hl
      rw [heq]
      exact ⟨hlegible.1, hfits⟩
    | semiJoin j => exact hlegible
  · intro l hl
    rw [relabel_field]
    exact h.clauses.leaves l hl
  · intro c hc
    rw [mem_comparisons, leaves_mapFilter] at hc
    obtain ⟨l, hl, heq⟩ := List.mem_map.mp hc
    cases l with
    | compare before =>
      obtain ⟨value, hbefore, -, htidy⟩ := hvalue before hl
      rw [hbefore] at heq
      cases heq
      exact htidy
    | semiJoin j => cases heq

theorem joinFilter_sturdy {q : Query} (h : q.Sturdy) {path junction link parentField : String}
    (hpath : isProper path = true) (hdots : 1 < (segments path).length) (hjunction : isIdent junction = true)
    (hlink : isProper link = true) (hparent : isProper parentField = true) :
    Query.Sturdy (q.mapFilter (intoSemiJoin path junction link parentField)) := by
  refine ⟨h.clauses.mapFilter ?_ ?_, ?_⟩
  · intro l hl
    exact intoSemiJoin_legible hpath hdots hjunction hlink hparent (h.clauses.legible.leaves l hl)
  · intro l hl
    rcases intoSemiJoin_field path junction link parentField l with hsame | hfield
    · rw [hsame]
      exact h.clauses.leaves l hl
    · rw [hfield]
      exact .name hparent
  · intro c hc
    rw [mem_comparisons, leaves_mapFilter] at hc
    obtain ⟨l, hl, heq⟩ := List.mem_map.mp hc
    rw [intoSemiJoin_compare heq] at hl
    exact h.values c (mem_comparisons.mpr hl)

/-- A sturdy query is one after a correction that fits. -/
theorem apply_sturdy {q : Query} (h : q.Sturdy) {a : Action} (ha : a.Fits) : (a.apply q).Sturdy := by
  cases a with
  | swapObject old new =>
    rw [apply]
    split
    · exact ⟨h.clauses.withObject ha, h.values⟩
    · exact h
  | swapField old new clauses => exact renameIn_sturdy h ha clauses
  | fixPath old corrected => exact renameIn_sturdy h ha Clause.every
  | fixChildField relationship old new =>
    exact changeChildren_sturdy h relationship fun inner hinner => QueryOf.Sturdy.renameIn ha hinner Clause.every
  | swapChild old new =>
    exact changeChildren_sturdy h old fun inner hinner => QueryOf.Sturdy.withObject hinner ha
  | addGroupBy fields => exact groupAlso_sturdy h ha
  | applyLimit limit =>
    obtain ⟨count, rfl, hcount⟩ := ha
    exact ⟨h.clauses.withLimit hcount, h.values⟩
  | stripAs => exact ⟨h.clauses.mapItems fun item => stripItem_sturdy, h.values⟩
  | replaceLiteral field old new => exact relabelFilter_sturdy h ha.1 ha.2 field
  | toSemiJoin path junction link parentField =>
    obtain ⟨hpath, hdots, hjunction, hlink, hparent⟩ := ha
    exact joinFilter_sturdy h hpath hdots hjunction hlink hparent

theorem Fits.plain {a : Action} (h : a.Fits) : ∀ new ∈ a.newPath?, '\\' ∉ new.toList := by
  have hrenames {old new : String} (hr : Renames old new) : '\\' ∉ new.toList :=
    (pathText_of_isPath hr.target).plain
  intro new hnew
  cases a with
  | swapField old new' clauses => exact Option.some.inj hnew ▸ hrenames h
  | fixPath old new' => exact Option.some.inj hnew ▸ hrenames h
  | fixChildField relationship old new' => exact Option.some.inj hnew ▸ hrenames h
  | _ => cases hnew

theorem applyAll_sturdy {q : Query} (h : q.Sturdy) {actions : List Action} (ha : ∀ a ∈ actions, a.Fits) :
    (applyAll q actions).Sturdy := by
  have hordered : ∀ a ∈ inOrder actions, a.Fits := fun a hmem => ha a (mem_inOrder.mp hmem)
  unfold applyAll
  generalize inOrder actions = ordered at hordered
  induction ordered generalizing q with
  | nil => exact h
  | cons a ordered ih =>
    obtain ⟨hfirst, hrest⟩ := List.forall_mem_cons.mp hordered
    exact ih (apply_sturdy h hfirst) hrest

end Action

end Soql
