import Soql.Proofs.Query.ClauseTexts

namespace Soql

def QueryOf.ShortCounts {κ : Type} (q : QueryOf κ) : Prop :=
  ∀ n ∈ q.counts, Decimal.isShort n = true

def QueryOf.inners {κ : Type} (q : QueryOf κ) : List κ :=
  q.children ++ q.semiJoins.map (·.query)

theorem mem_inners {κ : Type} {q : QueryOf κ} {inner : κ} :
    inner ∈ q.inners ↔ .child inner ∈ q.items ∨ ∃ j, .semiJoin j ∈ q.leaves ∧ j.query = inner := by
  rw [QueryOf.inners, List.mem_append]
  constructor
  · rintro (hinner | hinner)
    · obtain ⟨item, hitem, hsome⟩ := List.mem_filterMap.mp hinner
      cases item with
      | child q => exact .inl (Option.some.inj hsome ▸ hitem)
      | _ => cases hsome
    · obtain ⟨j, hj, rfl⟩ := List.mem_map.mp hinner
      obtain ⟨l, hl, hsome⟩ := List.mem_filterMap.mp hj
      cases l with
      | compare c => cases hsome
      | semiJoin j' => exact .inr ⟨j, Option.some.inj hsome ▸ hl, rfl⟩
  · rintro (hitem | ⟨j, hl, rfl⟩)
    · exact .inl (List.mem_filterMap.mpr ⟨_, hitem, rfl⟩)
    · exact .inr (List.mem_map.mpr ⟨j, List.mem_filterMap.mpr ⟨_, hl, rfl⟩, rfl⟩)

theorem Query.isShort_iff {q : Query} :
    q.isShort = true ↔ q.ShortCounts ∧ ∀ inner ∈ q.inners, inner.ShortCounts := by
  rw [Query.isShort, List.all_append, Bool.and_eq_true, List.all_eq_true, List.all_eq_true]
  refine and_congr_right fun _ => ?_
  simp only [List.mem_flatMap]
  constructor
  · exact fun h inner hinner n hn => h n ⟨inner, hinner, hn⟩
  · rintro h n ⟨inner, hinner, hn⟩
    exact h inner hinner n hn

namespace Query

open Text Token

variable {κ : Type} {inside : Inside κ} {text : κ → String} {clear : κ → Bool} {legible : κ → Prop}

theorem isShort_of_isCount {n : Nat} (h : IsCount n) : Decimal.isShort n = true := by
  rw [Decimal.isShort, decide_eq_true_eq]
  exact h

theorem shortCounts_of_counts {q : QueryOf κ} (hlimit : ∀ n ∈ q.limit, ∃ count : Nat, n = count ∧ IsCount count)
    (hoffset : ∀ n ∈ q.offset, IsCount n) : q.ShortCounts := by
  intro n hn
  rcases List.mem_append.mp hn with hn | hn
  · obtain ⟨count, rfl, hcount⟩ := hlimit n (Option.mem_toList.mp hn)
    exact isShort_of_isCount hcount
  · obtain ⟨count, hcount, rfl⟩ := List.mem_map.mp hn
    exact isShort_of_isCount (hoffset count (Option.mem_toList.mp hcount))

theorem readItem_children (hin : Rereadable inside text clear legible) {P : κ → Prop} (hP : Yields inside.child P) :
    Yields (readItem inside) fun item => ∀ q, item = .child q → P q := by
  intro ts rest item h hts
  obtain ⟨-, hrest⟩ := readItem_laid hin h hts
  refine ⟨?_, hrest⟩
  rintro q rfl
  cases itemRead_of_run h with
  | child heq hq =>
    subst heq
    exact (hP hq hts.tail).1
  | typeOf hitem =>
    rw [readTypeOf_eq] at hitem
    simp only [run_bind_ok, throw_bind, run_bar_ok, run_pure_ok] at hitem
    obtain ⟨_, _, -, _, _, -, _, _, -, _, _, -, _, _, -, _, _, -, -, hchild, -⟩ := hitem
    cases hchild

theorem readMembership_joins {P : κ → Prop} (hP : Yields inside.semiJoin P) {field : String} {negated : Bool}
    {ts rest : List Token} {j : SemiJoin κ}
    (h : (readMembership inside field negated).run ts = .ok (.semiJoin j, rest)) (hts : AllWhole ts) :
    P j.query := by
  unfold readMembership at h
  simp only [run_bind_ok, run_takeMark_ok, run_atWord_ok] at h
  obtain ⟨_, mid, rfl, here, _, ⟨-, rfl⟩, h⟩ := h
  split at h
  · simp only [run_bind_ok, run_pure_ok] at h
    obtain ⟨q, _, hq, hjoin, -⟩ := h
    cases hjoin
    exact (hP hq hts.tail).1
  · simp only [run_bind_ok, run_pure_ok] at h
    obtain ⟨v, _, -, hcompare, -⟩ := h
    cases hcompare

theorem readLeaf_joins (hin : Rereadable inside text clear legible) {P : κ → Prop} (hP : Yields inside.semiJoin P) :
    Yields (readLeaf inside) fun l => ∀ j, l = .semiJoin j → P j.query := by
  intro ts rest l h hts
  rw [readLeaf_eq, run_bind_ok] at h
  obtain ⟨field, mid, hfield, htest⟩ := h
  obtain ⟨-, hmid⟩ := readExpression_laid hfield hts
  obtain ⟨-, hrest⟩ := readTest_yields hin field htest hmid
  refine ⟨?_, hrest⟩
  rintro j rfl
  unfold readTest at htest
  simp only [run_bind_ok, run_take_ok] at htest
  obtain ⟨t, after, rfl, htest⟩ := htest
  -- Only what follows IN, or NOT IN, may be a query.
  split at htest
  · simp only [run_bind_ok, run_pure_ok] at htest
    obtain ⟨v, _, -, hcompare, -⟩ := htest
    cases hcompare
  split at htest
  · simp only [run_bind_ok, run_pure_ok] at htest
    obtain ⟨v, _, -, hcompare, -⟩ := htest
    cases hcompare
  split at htest
  · exact readMembership_joins hP htest hmid.tail
  split at htest
  · simp only [run_bind_ok, run_takeWord_ok] at htest
    obtain ⟨_, _, ⟨w, rfl, -⟩, htest⟩ := htest
    exact readMembership_joins hP htest hmid.tail.tail
  split at htest
  · simp only [run_bind_ok, run_takeMark_ok, run_pure_ok] at htest
    obtain ⟨_, _, -, v, _, -, hcompare, -⟩ := htest
    cases hcompare
  · split at htest
    · exact absurd htest run_throw_ok
    · exact absurd htest run_throw_ok

/-- The counts of a query that was read can be written, and what was read inside it has a property. -/
theorem readQuery_short (hin : Rereadable inside text clear legible) {P : κ → Prop}
    (hchild : Yields inside.child P) (hjoin : Yields inside.semiJoin P) {ts rest : List Token} {q : QueryOf κ}
    (h : (readQuery inside).run ts = .ok (q, rest)) (hts : AllWhole ts) :
    q.ShortCounts ∧ ∀ inner ∈ q.inners, P inner := by
  unfold readQuery at h
  simp only [run_bind_ok, run_takeWord_ok, run_takeName_ok, throw_bind, run_bar_ok, run_atWord_ok,
    run_pure_ok] at h
  obtain ⟨_, _, ⟨t, rfl, -⟩, items, mid₁, hitems, _, mid₂, ⟨u, rfl, -⟩, object, mid₃, rfl, -, scope, mid₄,
    hscope, filter, mid₅, hfilter, _, _, ⟨-, rfl⟩, -, group, mid₆, hgroup, having, mid₇, hhaving, order, mid₈,
    horder, limit, mid₉, hlimit, offset, mid₁₀, hoffset, _, _, ⟨-, rfl⟩, -, rfl, rfl⟩ := h
  -- Clause by clause: what is kept of the inner queries, and that whole tokens are left.
  obtain ⟨-, hwhole₁⟩ := readItems_all (readItem_laid hin) hitems hts.tail
  obtain ⟨hchildren, -⟩ := readItems_all (readItem_children hin hchild) hitems hts.tail
  obtain ⟨-, hwhole₂⟩ := optional_yields readScope_yields hscope hwhole₁.tail.tail
  obtain ⟨hjoins, hwhole₃⟩ :=
    optional_yields (readFilter_yields (composes_leaves (readLeaf_joins hin hjoin))) hfilter hwhole₂
  obtain ⟨-, hwhole₄⟩ := optional_yields readGroupBy_laid hgroup hwhole₃
  obtain ⟨hwhole₅, -⟩ := optionalHaving_sound hhaving hwhole₄
  obtain ⟨-, hwhole₆⟩ := optional_yields readOrderBy_laid horder hwhole₅
  obtain ⟨hwhole₇, hlimit⟩ := readCount_sound hlimit hwhole₆
  obtain ⟨-, hoffset⟩ := readCount_sound hoffset hwhole₇
  constructor
  · apply shortCounts_of_counts _ hoffset
    intro n hn
    obtain ⟨count, hcount, rfl⟩ := Option.map_eq_some_iff.mp hn
    exact ⟨count, rfl, hlimit count hcount⟩
  · intro inner hinner
    rcases mem_inners.mp hinner with hitem | ⟨j, hl, rfl⟩
    · exact hchildren _ hitem _ rfl
    · unfold QueryOf.leaves at hl
      split at hl
      · exact hjoins _ ‹_› _ hl _ rfl
      · cases hl

theorem readInner_short : Yields readInner QueryOf.ShortCounts := by
  intro ts rest q h hts
  refine ⟨?_, (readInner_yields h hts).2⟩
  unfold readInner at h
  simp only [run_bind_ok, run_takeMark_ok, run_pure_ok] at h
  obtain ⟨q, mid, hread, _, _, -, rfl, -⟩ := h
  exact (readQuery_short rereadable_nothing rereadable_nothing.child rereadable_nothing.semiJoin hread hts).1

/-- The counts of a query that is parsed can be written. -/
theorem parse_short {text : String} {q : Query} (h : parse text = .ok q) : q.isShort = true := by
  obtain ⟨ts, -, hwhole, hread⟩ := parse_ok h
  exact isShort_iff.mpr (readQuery_short rereadable_inner readInner_short readInner_short hread hwhole)

end Query

end Soql
