import Soql.Proofs.Query.ClauseTexts

namespace Soql

open Text Token

/-- What stands on the left side of a condition: a name, or a call with its arguments. -/
def IsSide (e : String) : Prop :=
  (word e).Whole ∨ ∃ name args, e = callText name args

namespace Query

variable {κ : Type} {inside : Inside κ} {text : κ → String} {clear : κ → Bool} {legible : κ → Prop}

theorem readExpression_side : Yields readExpression IsSide := by
  intro ts rest e h hts
  obtain ⟨hrest, -⟩ := readExpression_sound h hts
  unfold readExpression at h
  simp only [run_bind_ok, run_takeName_ok, run_atMark_ok] at h
  obtain ⟨name, after, rfl, call?, _, ⟨-, rfl⟩, h⟩ := h
  refine ⟨?_, hrest⟩
  split at h
  · simp only [run_bind_ok, run_pure_ok] at h
    obtain ⟨args, _, -, rfl, -⟩ := h
    exact .inr ⟨name, args, rfl⟩
  · obtain ⟨rfl, -⟩ := run_pure_ok.mp h
    exact .inl hts.head

theorem readLeaf_side (hin : Rereadable inside text clear legible) :
    Yields (readLeaf inside) fun l => IsSide l.field := by
  intro ts rest l h hts
  rw [readLeaf_eq, run_bind_ok] at h
  obtain ⟨field, mid, hfield, htest⟩ := h
  obtain ⟨hside, hmid⟩ := readExpression_side hfield hts
  obtain ⟨⟨rfl, -⟩, hrest⟩ := readTest_yields hin field htest hmid
  exact ⟨hside, hrest⟩

/-- A query's filter has what every filter has that is read as one. -/
theorem readQuery_filter {P : Filter κ → Prop} (hin : Rereadable inside text clear legible)
    (hP : Composes inside P) {ts rest : List Token} {q : QueryOf κ}
    (h : (readQuery inside).run ts = .ok (q, rest)) (hts : AllWhole ts) : ∀ f ∈ q.filter, P f := by
  unfold readQuery at h
  simp only [run_bind_ok, run_takeWord_ok, run_takeName_ok, throw_bind, run_bar_ok, run_atWord_ok,
    run_pure_ok] at h
  obtain ⟨_, _, ⟨t, rfl, -⟩, items, mid₁, hitems, _, mid₂, ⟨u, rfl, -⟩, object, mid₃, rfl, -, scope, mid₄,
    hscope, filter, mid₅, hfilter, _, _, ⟨-, rfl⟩, -, group, mid₆, -, having, mid₇, -, order, mid₈, -, -, -, -,
    -, -, -, -, -, -, -, rfl, -⟩ := h
  obtain ⟨-, hwhole₁⟩ := readItems_all (readItem_laid hin) hitems hts.tail
  obtain ⟨-, hwhole₂⟩ := optional_yields readScope_yields hscope hwhole₁.tail.tail
  obtain ⟨hread, -⟩ := optional_yields (readFilter_yields hP) hfilter hwhole₂
  exact hread

theorem parse_sides {text : String} {q : Query} (h : parse text = .ok q) : ∀ l ∈ q.leaves, IsSide l.field := by
  obtain ⟨ts, -, hwhole, hread⟩ := parse_ok h
  have hfilter := readQuery_filter rereadable_inner (composes_leaves (readLeaf_side rereadable_inner)) hread hwhole
  intro l hl
  unfold QueryOf.leaves at hl
  split at hl
  · exact hfilter _ ‹_› l hl
  · cases hl

end Query

/-- A character in front of the small letters is in the lower case of a text just when it is in the text. -/
theorem mem_lower_low {m : Char} (hm : IsLow m) (hrun : lowerRun m = [m]) {s : String} :
    m ∈ (lower s).toList ↔ m ∈ s.toList := by
  rw [lower, String.toList_ofList, lowerChars, ← List.count_pos_iff, ← List.count_pos_iff,
    count_lowerAfter hm hrun]

/-- A left side that is a path but for the letter case is a path. -/
theorem IsSide.isPath {e path : String} (h : IsSide e) (hpath : isPath path = true)
    (hsame : lower e = lower path) : isPath e = true := by
  -- Neither a colon nor a parenthesis is in the path, and the lower case of a text keeps both.
  have hnone {m : Char} (hm : IsLow m) (hrun : lowerRun m = [m]) (hchar : isPathChar m = false) :
      m ∉ e.toList := by
    intro hmem
    rw [← mem_lower_low hm hrun, hsame, mem_lower_low hm hrun] at hmem
    rw [(pathText_of_isPath hpath).chars m hmem] at hchar
    cases hchar
  rcases h with hwhole | ⟨name, args, rfl⟩
  · exact isPath_of_whole hwhole (hnone (by decide) (by decide) (by decide))
  · have hopen : '(' ∉ (callText name args).toList := hnone (by decide) (by decide) (by decide)
    simp [callText] at hopen

theorem upper_of_isPath {w : String} (h : isPath w = true) : Text.upper w = w.map Char.toUpper := by
  apply String.toList_injective
  rw [Text.upper, String.toList_ofList, String.toList_map]
  have hascii := toNat_lt_of_isPath h
  generalize w.toList = s at hascii
  induction s with
  | nil => rfl
  | cons c s ih =>
    obtain ⟨hc, hs⟩ := List.forall_mem_cons.mp hascii
    rw [List.flatMap_cons, ih hs, upperRun, if_pos hc]
    rfl

theorem isKeyword_congr {a b : String} (ha : isPath a = true) (hb : isPath b = true)
    (h : lower a = lower b) : Vocabulary.isKeyword a = Vocabulary.isKeyword b := by
  have hupper := upper_of_sameLower ha hb (by rw [sameLower, h, beq_self_eq_true])
  rw [Vocabulary.isKeyword, Vocabulary.isKeyword, upper_of_isPath ha, upper_of_isPath hb, hupper]

/-- A path names itself and nothing else, unless it is a reserved word. -/
theorem fieldPaths_of_isPath {w : String} (h : isPath w = true) :
    fieldPaths w = if Vocabulary.isKeyword w then [] else [w] := by
  have hunquoted : ∀ c ∈ w.toList, c ≠ '\x27' ∧ c ≠ '\x22' := by
    intro c hc
    have hchar := (pathText_of_isPath h).chars c hc
    constructor <;> rintro rfl <;> exact absurd hchar (by decide)
  have hbare : withoutLiterals w.toList = w.toList := by
    simpa [withoutLiterals] using withoutLiterals_append hunquoted []
  have hpaths : dottedPaths w.toList = [w.toList] := by
    rw [dottedPaths_of_dotted (dotted_of_isPath h)]
    simp [opensCall, dottedPaths]
  rw [fieldPaths, hbare, hpaths, List.map_singleton, String.ofList_toList]
  cases hword : Vocabulary.isKeyword w with
  | true => simp [hword]
  | false => simp [hword]

end Soql
