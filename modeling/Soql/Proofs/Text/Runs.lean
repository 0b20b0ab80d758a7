import Soql.Proofs.Text.Pattern

namespace Soql.Text

def Stops (p : Char → Bool) (s : List Char) : Prop :=
  ∀ c ∈ s.head?, p c = true

theorem Stops.nil {p : Char → Bool} : Stops p [] := by
  intro c hc
  cases hc

theorem Stops.cons {p : Char → Bool} {c : Char} (hc : p c = true) (s : List Char) : Stops p (c :: s) := by
  intro d hd
  obtain rfl : c = d := by simpa using hd
  exact hc

theorem stops_dropWhile (p : Char → Bool) (s : List Char) : Stops p (s.dropWhile (!p ·)) := by
  intro c hc
  have hstop := List.head?_dropWhile_not (!p ·) s
  rw [hc] at hstop
  simpa using hstop

section Runs

variable {p : Char → Bool}

/-- A text is made of separators and of whole runs of other characters. -/
theorem runs_induction {motive : List Char → Prop} (nil : motive [])
    (sep : ∀ c s, p c = true → motive s → motive (c :: s))
    (run : ∀ r s, r ≠ [] → (∀ c ∈ r, p c = false) → Stops p s → motive s → motive (r ++ s))
    (s : List Char) : motive s := by
  induction hn : s.length using Nat.strong_induction_on generalizing s with
  | _ n ih =>
    subst hn
    cases s with
    | nil => exact nil
    | cons c s =>
      by_cases hc : p c = true
      · exact sep c s hc (ih s.length (by simp) s rfl)
      · -- The run that begins here, and what is left after it.
        have hshorter : (s.dropWhile (!p ·)).length < (c :: s).length := by
          have hle := (List.dropWhile_sublist (!p ·) (l := s)).length_le
          simp only [List.length_cons]
          omega
        have hrest := ih _ hshorter (s.dropWhile (!p ·)) rfl
        have hrun : ∀ d ∈ c :: s.takeWhile (!p ·), p d = false := by
          intro d hd
          rcases List.mem_cons.mp hd with rfl | hd
          · simpa using hc
          · simpa using List.mem_takeWhile_imp hd
        have hwhole := run _ _ (by simp) hrun (stops_dropWhile p s) hrest
        rwa [List.cons_append, List.takeWhile_append_dropWhile] at hwhole

theorem runsBetween_nil : runsBetween p [] = [] :=
  rfl

theorem runsBetween_sep {c : Char} (hc : p c = true) (s : List Char) :
    runsBetween p (c :: s) = runsBetween p s := by
  rw [runsBetween, pieces, if_pos hc]
  rfl

theorem runsBetween_run {r s : List Char} (hr : r ≠ []) (hrun : ∀ c ∈ r, p c = false)
    (hs : Stops p s) : runsBetween p (r ++ s) = r :: runsBetween p s := by
  have hfull : r.isEmpty = false := by simpa using hr
  rw [runsBetween, pieces_append_of_not_sep hrun]
  cases s with
  | nil => simp [pieces, runsBetween, hfull]
  | cons c s =>
    have hc : p c = true := hs c rfl
    rw [runsBetween_sep hc, pieces, if_pos hc, List.modifyHead_cons, List.append_nil, runsBetween]
    simp [hfull]

/-- Separators at the end are in no run. -/
theorem runsBetween_append_seps {s t : List Char} (ht : ∀ c ∈ t, p c = true) :
    runsBetween p (s ++ t) = runsBetween p s := by
  induction s using runs_induction (p := p) with
  | nil =>
    induction t with
    | nil => rfl
    | cons c t ih =>
      rw [List.nil_append, runsBetween_sep (ht c (by simp))]
      exact ih fun d hd => ht d (by simp [hd])
  | sep c s hc ih => rw [List.cons_append, runsBetween_sep hc, runsBetween_sep hc, ih]
  | run r s hr hrun hs ih =>
    have hstops : Stops p (s ++ t) := by
      cases s with
      | nil =>
        cases t with
        | nil => exact .nil
        | cons c t => exact .cons (ht c (by simp)) t
      | cons c s => exact .cons (hs c rfl) _
    rw [List.append_assoc, runsBetween_run hr hrun hstops, runsBetween_run hr hrun hs, ih]

/-- The runs before a separator and those after it. -/
theorem runsBetween_append_sep {c : Char} (hc : p c = true) (s t : List Char) :
    runsBetween p (s ++ c :: t) = runsBetween p s ++ runsBetween p t := by
  induction s using runs_induction (p := p) with
  | nil => rw [List.nil_append, runsBetween_sep hc, runsBetween_nil, List.nil_append]
  | sep d s hd ih => rw [List.cons_append, runsBetween_sep hd, runsBetween_sep hd, ih]
  | run r s hr hrun hs ih =>
    have hstops : Stops p (s ++ c :: t) := by
      cases s with
      | nil => exact .cons hc t
      | cons d s => exact .cons (hs d rfl) _
    rw [List.append_assoc, runsBetween_run hr hrun hstops, runsBetween_run hr hrun hs, ih,
      List.cons_append]

/-- A part of a text without separators is a run where none of its neighbours goes on with it. -/
theorem mem_runsBetween {front r back : List Char} (hr : r ≠ []) (hrun : ∀ c ∈ r, p c = false)
    (hfront : ∀ c ∈ front.getLast?, p c = true) (hback : Stops p back) :
    r ∈ runsBetween p (front ++ r ++ back) := by
  have hhere : r ∈ runsBetween p (r ++ back) := by
    rw [runsBetween_run hr hrun hback]
    exact List.mem_cons_self
  rw [List.append_assoc]
  rcases List.eq_nil_or_concat front with rfl | ⟨init, c, rfl⟩
  · exact hhere
  · have hc : p c = true := hfront c (by simp)
    rw [List.concat_eq_append, List.append_assoc, List.singleton_append, runsBetween_append_sep hc]
    exact List.mem_append_right _ hhere

theorem runsBetween_dropWhile {q : Char → Bool} (hq : ∀ c, q c = true → p c = true) (s : List Char) :
    runsBetween p (s.dropWhile q) = runsBetween p s := by
  induction s with
  | nil => rfl
  | cons c s ih =>
    by_cases hc : q c = true
    · rw [List.dropWhile_cons_of_pos hc, ih, runsBetween_sep (hq c hc)]
    · rw [List.dropWhile_cons_of_neg hc]

/-- What is cut off at the end. -/
theorem exists_dropEnd (q : Char → Bool) (s : List Char) :
    ∃ t, dropEnd q s ++ t = s ∧ ∀ c ∈ t, q c = true := by
  refine ⟨(s.reverse.takeWhile q).reverse, ?_, ?_⟩
  · rw [dropEnd, ← List.reverse_append, List.takeWhile_append_dropWhile, List.reverse_reverse]
  · intro c hc
    exact List.mem_takeWhile_imp (List.mem_reverse.mp hc)

variable (hblank : ∀ c, isBlank c = true → p c = true)

include hblank

theorem runsBetween_trim (s : List Char) : runsBetween p (trim s) = runsBetween p s := by
  obtain ⟨t, hs, ht⟩ := exists_dropEnd isBlank (s.dropWhile isBlank)
  have hcut : runsBetween p (trim s ++ t) = runsBetween p (trim s) :=
    runsBetween_append_seps fun c hc => hblank c (ht c hc)
  rw [← hcut, trim, dropEnds, hs, runsBetween_dropWhile hblank]

end Runs

section Squeezed

inductive Squeezed : List Char → Prop
  | nil : Squeezed []
  | other {c : Char} {s : List Char} (hc : isBlank c = false) (h : Squeezed s) : Squeezed (c :: s)
  | space {s : List Char} (hs : ∀ c ∈ s.head?, isBlank c = false) (h : Squeezed s) :
    Squeezed (' ' :: s)

theorem squeeze_other {c : Char} (hc : isBlank c = false) (s : List Char) :
    squeeze (c :: s) = c :: squeeze s := by
  rw [squeeze, if_neg (by simp [hc])]

/-- A blank is written as a space, unless a space follows already. -/
theorem squeeze_blank {c : Char} (hc : isBlank c = true) (s : List Char) :
    squeeze (c :: s) = if (squeeze s).head? = some ' ' then squeeze s else ' ' :: squeeze s := by
  rw [squeeze, if_pos hc]
  split
  · rename_i others hs
    rw [hs]
    simp
  · rename_i hs
    rw [if_neg]
    intro hhead
    obtain ⟨others, hothers⟩ := List.head?_eq_some_iff.mp hhead
    exact hs others hothers

theorem Squeezed.head {c : Char} {s : List Char} (h : Squeezed (c :: s)) (hc : isBlank c = true) :
    c = ' ' := by
  cases h with
  | other hc' _ =>
    rw [hc] at hc'
    cases hc'
  | space _ _ => rfl

theorem Squeezed.tail {c : Char} {s : List Char} (h : Squeezed (c :: s)) : Squeezed s := by
  cases h with
  | other _ h => exact h
  | space _ h => exact h

theorem squeezed_squeeze (s : List Char) : Squeezed (squeeze s) := by
  induction s with
  | nil => exact .nil
  | cons c s ih =>
    by_cases hc : isBlank c = true
    · rw [squeeze_blank hc]
      split
      case isTrue => exact ih
      case isFalse hhead =>
        refine .space ?_ ih
        intro d hd
        obtain ⟨others, hothers⟩ := List.head?_eq_some_iff.mp hd
        rw [hothers] at ih hhead
        rw [← Bool.not_eq_true]
        intro hblank
        apply hhead
        rw [ih.head hblank]
        rfl
    · have hc : isBlank c = false := by simpa using hc
      rw [squeeze_other hc]
      exact .other hc ih

theorem Squeezed.squeeze_eq {s : List Char} (h : Squeezed s) : squeeze s = s := by
  induction h with
  | nil => rfl
  | other hc _ ih => rw [squeeze_other hc, ih]
  | @space s hs _ ih =>
    have hhead : s.head? ≠ some ' ' := by
      intro heq
      have hspace := hs ' ' heq
      revert hspace
      decide
    rw [squeeze_blank (by decide), ih, if_neg hhead]

theorem Squeezed.dropWhile {s : List Char} (h : Squeezed s) (q : Char → Bool) :
    Squeezed (s.dropWhile q) := by
  induction s with
  | nil => exact h
  | cons c s ih =>
    rw [List.dropWhile_cons]
    split
    · exact ih h.tail
    · exact h

theorem Squeezed.of_append {s t : List Char} (h : Squeezed (s ++ t)) : Squeezed s := by
  induction s with
  | nil => exact .nil
  | cons c s ih =>
    rw [List.cons_append] at h
    cases h with
    | other hc h => exact .other hc (ih h)
    | space hs h =>
      refine .space ?_ (ih h)
      intro d hd
      apply hs d
      rw [List.head?_append, hd]
      rfl

theorem Squeezed.trim {s : List Char} (h : Squeezed s) : Squeezed (trim s) := by
  obtain ⟨t, hs, -⟩ := exists_dropEnd isBlank (s.dropWhile isBlank)
  apply Squeezed.of_append (t := t)
  rw [Text.trim, dropEnds, hs]
  exact h.dropWhile isBlank

theorem mem_of_mem_trim {s : List Char} {c : Char} (h : c ∈ trim s) : c ∈ s := by
  obtain ⟨t, hs, -⟩ := exists_dropEnd isBlank (s.dropWhile isBlank)
  apply (List.dropWhile_sublist isBlank).subset
  rw [← hs]
  exact List.mem_append_left t h

theorem mem_squeeze {s : List Char} {c : Char} (h : c ∈ squeeze s) : c = ' ' ∨ c ∈ s := by
  induction s with
  | nil => cases h
  | cons d s ih =>
    by_cases hd : isBlank d = true
    · rw [squeeze_blank hd] at h
      have hcases : c = ' ' ∨ c ∈ squeeze s := by
        split at h
        · exact Or.inr h
        · simpa using h
      rcases hcases with rfl | h
      · exact Or.inl rfl
      · exact (ih h).imp_right (List.mem_cons_of_mem d)
    · rw [squeeze_other (by simpa using hd)] at h
      rcases List.mem_cons.mp h with rfl | h
      · exact Or.inr List.mem_cons_self
      · exact (ih h).imp_right (List.mem_cons_of_mem d)

/-- A run without blanks is written as it stands. -/
theorem squeeze_append {r s : List Char} (hr : ∀ c ∈ r, isBlank c = false) :
    squeeze (r ++ s) = r ++ squeeze s := by
  induction r with
  | nil => rfl
  | cons c r ih =>
    rw [List.cons_append, squeeze_other (hr c (by simp)), ih fun d hd => hr d (by simp [hd])]
    rfl

/-- What starts with a separator does so when its blanks are written as spaces. -/
theorem stops_squeeze {p : Char → Bool} (hblank : ∀ c, isBlank c = true → p c = true) {s : List Char}
    (hs : Stops p s) : Stops p (squeeze s) := by
  cases s with
  | nil => exact .nil
  | cons c s =>
    by_cases hc : isBlank c = true
    · rw [squeeze_blank hc]
      intro d hd
      have hspace : p ' ' = true := hblank ' ' (by decide)
      split at hd
      case isTrue hhead =>
        rw [hhead] at hd
        cases hd
        exact hspace
      case isFalse =>
        cases hd
        exact hspace
    · rw [squeeze_other (by simpa using hc)]
      exact .cons (hs c rfl) _

theorem runsBetween_squeeze {p : Char → Bool} (hblank : ∀ c, isBlank c = true → p c = true)
    (s : List Char) : runsBetween p (squeeze s) = runsBetween p s := by
  induction s using runs_induction (p := p) with
  | nil => rfl
  | sep c s hc ih =>
    rw [runsBetween_sep hc]
    by_cases hb : isBlank c = true
    · rw [squeeze_blank hb]
      split
      · exact ih
      · rw [runsBetween_sep (hblank ' ' (by decide)), ih]
    · rw [squeeze_other (by simpa using hb), runsBetween_sep hc, ih]
  | run r s hr hrun hs ih =>
    have hnone : ∀ c ∈ r, isBlank c = false := by
      intro c hc
      rw [← Bool.not_eq_true]
      intro hb
      have hsep := hrun c hc
      rw [hblank c hb] at hsep
      cases hsep
    rw [squeeze_append hnone, runsBetween_run hr hrun hs,
      runsBetween_run hr hrun (stops_squeeze hblank hs), ih]

end Squeezed

end Soql.Text
