import Soql.Text.Path

namespace Soql.Text

/-- What is looked up in a table stands in it. -/
theorem mem_of_lookup {α β : Type} [BEq α] [LawfulBEq α] {key : α} {value : β} {table : List (α × β)}
    (h : table.lookup key = some value) : (key, value) ∈ table := by
  obtain ⟨before, after, rfl, -⟩ := List.lookup_eq_some_iff.mp h
  exact List.mem_append_right before List.mem_cons_self

/-- No capital sigma stands in a text. -/
def SigmaFree (s : String) : Prop :=
  ∀ c ∈ s.toList, c.toNat ≠ 0x3a3

instance (s : String) : Decidable (SigmaFree s) :=
  inferInstanceAs (Decidable (∀ c ∈ s.toList, c.toNat ≠ 0x3a3))

theorem lowerAfter_eq {s : List Char} (h : ∀ c ∈ s, c.toNat ≠ 0x3a3) (cased : Bool) :
    lowerAfter cased s = s.flatMap lowerRun := by
  induction s generalizing cased with
  | nil => rfl
  | cons c s ih =>
    have hc : ¬(c.toNat == 0x3a3) = true := by
      rw [beq_iff_eq]
      exact h c List.mem_cons_self
    rw [lowerAfter, if_neg hc, List.flatMap_cons]
    rw [ih fun d hd => h d (List.mem_cons_of_mem c hd)]

theorem toList_lower {s : String} (h : SigmaFree s) : (lower s).toList = s.toList.flatMap lowerRun := by
  rw [lower, String.toList_ofList]
  exact lowerAfter_eq h false

/-- A text with a character has one in lower case. -/
theorem lowerAfter_ne_nil (cased : Bool) {s : List Char} (hs : s ≠ []) : lowerAfter cased s ≠ [] := by
  cases s with
  | nil => exact absurd rfl hs
  | cons c s =>
    unfold lowerAfter lowerRun
    dsimp only
    split
    · exact List.cons_ne_nil _ _
    · split <;> exact List.cons_ne_nil _ _

-- Every row moves its first code point beyond those of the marks.
theorem lowerRows_high : ∀ row ∈ lowerRows, (0x60 : Int) < row.1 + row.2.2.2 := by
  decide +kernel

theorem shifted_lowerRows {n : Nat} (h : 0x80 ≤ n) : 0x60 < shifted lowerRows n := by
  unfold shifted
  split
  case h_1 low high step shift hrow =>
    have hmem := List.mem_of_find?_eq_some hrow
    have hhigh : (0x60 : Int) < low + shift := lowerRows_high _ hmem
    have hfound := List.find?_some hrow
    simp only [Bool.and_eq_true, decide_eq_true_eq] at hfound
    have hlow : low ≤ n := hfound.1.1
    omega
  case h_2 => omega

theorem toNat_ofNat_or (n : Nat) : (Char.ofNat n).toNat = n ∨ (Char.ofNat n).toNat = 0 := by
  by_cases hvalid : n.isValidChar
  · left
    rw [Char.ofNat, dif_pos hvalid]
    rfl
  · right
    rw [Char.ofNat, dif_neg hvalid]
    rfl

def IsLow (c : Char) : Prop :=
  0 < c.toNat ∧ c.toNat < 0x60

instance (c : Char) : Decidable (IsLow c) :=
  inferInstanceAs (Decidable (_ ∧ _))

theorem toLower_low {m c : Char} (hm : IsLow m) (h : c.toLower = m) : c = m := by
  unfold Char.toLower at h
  split at h
  case isTrue hupper =>
    have hval := congrArg (fun d : Char => d.toNat) h
    have hlow := hm.2
    simp only [Char.toNat, UInt32.le_iff_toNat_le, ge_iff_le] at hval hupper
    simp at hval hupper
    omega
  case isFalse => exact h

theorem lowerChar_low {m c : Char} (hm : IsLow m) (h : lowerChar c = m) : c = m := by
  unfold lowerChar at h
  by_cases hascii : c.toNat < 0x80
  · rw [if_pos hascii] at h
    exact toLower_low hm h
  · rw [if_neg hascii] at h
    split at h
    · rw [← h] at hm
      exact absurd hm (by decide)
    · have hhigh : 0x60 < shifted lowerRows c.toNat := shifted_lowerRows (by omega)
      have hcode := toNat_ofNat_or (shifted lowerRows c.toNat)
      rw [h] at hcode
      obtain ⟨hpos, hlow⟩ := hm
      omega

/-- A character in front of the small letters is the lower case of nothing but itself. -/
theorem mem_lowerRun_low {m c : Char} (hm : IsLow m) (h : m ∈ lowerRun c) : c = m := by
  unfold lowerRun at h
  split at h
  · simp only [List.mem_cons, List.not_mem_nil, or_false] at h
    rcases h with rfl | rfl
    · exact absurd hm (by decide)
    · exact absurd hm (by decide)
  · rw [List.mem_singleton] at h
    exact lowerChar_low hm h.symm

/-- A character is written in lower case where it was written before, and nowhere else. -/
theorem count_lowerAfter {m : Char} (hm : IsLow m) (hrun : lowerRun m = [m]) (cased : Bool) (s : List Char) :
    (lowerAfter cased s).count m = s.count m := by
  induction s generalizing cased with
  | nil => rfl
  | cons c s ih =>
    rw [lowerAfter, List.count_append, ih, List.count_cons, Nat.add_comm]
    congr 1
    by_cases hc : c = m
    · have hsigma : ¬(c.toNat == 0x3a3) = true := by
        rw [hc, beq_iff_eq]
        have hlow := hm.2
        omega
      rw [if_neg hsigma, hc, hrun]
      simp
    · have hother : ¬(c == m) = true := by rwa [beq_iff_eq]
      rw [if_neg hother, List.count_eq_zero]
      intro hmem
      split at hmem
      · -- Neither of the two small sigmas stands in front of the small letters.
        rw [List.mem_singleton] at hmem
        rw [hmem] at hm
        split at hm <;> exact absurd hm (by decide)
      · exact hc (mem_lowerRun_low hm hmem)

/-- A character that is its own lower case, and that separates the letters on its two sides. -/
structure IsDivider (m : Char) : Prop where
  low : IsLow m
  run : lowerRun m = [m]
  seen : isCaseIgnorable m = false
  uncased : isCased m = false

namespace IsDivider

variable {m : Char} (hm : IsDivider m)

include hm

theorem casedAhead (s t : List Char) : casedAhead (s ++ m :: t) = casedAhead s := by
  unfold Text.casedAhead
  cases hdrop : s.dropWhile isCaseIgnorable with
  | nil =>
    have hfirst : (s ++ m :: t).dropWhile isCaseIgnorable = m :: t := by
      rw [List.dropWhile_append, hdrop]
      simp [hm.seen]
    rw [hfirst]
    exact hm.uncased
  | cons c others =>
    have hfirst : (s ++ m :: t).dropWhile isCaseIgnorable = c :: (others ++ m :: t) := by
      rw [List.dropWhile_append, hdrop]
      rfl
    rw [hfirst]

/-- The two sides of such a character are written in lower case apart from each other. -/
theorem lowerAfter_append (cased : Bool) (s t : List Char) :
    lowerAfter cased (s ++ m :: t) = lowerAfter cased s ++ m :: lowerAfter false t := by
  induction s generalizing cased with
  | nil =>
    have hsigma : ¬(m.toNat == 0x3a3) = true := by
      rw [beq_iff_eq]
      have hlow := hm.low.2
      omega
    rw [List.nil_append, lowerAfter, lowerAfter, if_neg hsigma, hm.run, hm.seen, hm.uncased]
    rfl
  | cons c s ih =>
    rw [List.cons_append, lowerAfter, lowerAfter, hm.casedAhead, ih, List.append_assoc]

end IsDivider

/-- A blank is its own lower case. -/
theorem lowerRun_blank {c : Char} (hc : isBlank c = true) : lowerRun c = [c] := by
  have hall : ∀ n ∈ [9, 10, 11, 12, 13, 28, 29, 30, 31, 32, 0x85, 0xa0, 0x1680, 0x2000, 0x2001, 0x2002, 0x2003,
      0x2004, 0x2005, 0x2006, 0x2007, 0x2008, 0x2009, 0x200a, 0x2028, 0x2029, 0x202f, 0x205f, 0x3000],
      lowerRun (Char.ofNat n) = [Char.ofNat n] := by
    decide +kernel
  have hcode := hall c.toNat
  rw [Char.ofNat_toNat] at hcode
  apply hcode
  simp only [isBlank, Bool.or_eq_true, Bool.and_eq_true, decide_eq_true_eq, beq_iff_eq] at hc
  simp only [List.mem_cons, List.not_mem_nil, or_false]
  omega

theorem mem_lowerAfter_blank {c : Char} (hc : isBlank c = true) (cased : Bool) {s : List Char} (h : c ∈ s) :
    c ∈ lowerAfter cased s := by
  induction s generalizing cased with
  | nil => cases h
  | cons d s ih =>
    rw [lowerAfter, List.mem_append]
    rcases List.mem_cons.mp h with rfl | h
    · have hsigma : ¬(c.toNat == 0x3a3) = true := by
        rw [beq_iff_eq]
        intro hcode
        rw [isBlank, hcode] at hc
        exact absurd hc (by decide)
      rw [if_neg hsigma, lowerRun_blank hc]
      exact .inl (List.mem_singleton_self c)
    · exact .inr (ih _ h)

theorem pieces_ne_nil (p : Char → Bool) (s : List Char) : pieces p s ≠ [] := by
  cases s with
  | nil => simp [pieces]
  | cons c s =>
    rw [pieces]
    split
    · simp
    · split <;> simp

theorem pieces_cons_of_not_sep {p : Char → Bool} {c : Char} (hc : p c = false) (s : List Char) :
    pieces p (c :: s) = (pieces p s).modifyHead (c :: ·) := by
  rw [pieces, hc]
  cases hs : pieces p s with
  | nil => exact absurd hs (pieces_ne_nil p s)
  | cons first others => rfl

theorem pieces_append_of_not_sep {p : Char → Bool} {s : List Char} (hs : ∀ c ∈ s, p c = false) (t : List Char) :
    pieces p (s ++ t) = (pieces p t).modifyHead (s ++ ·) := by
  induction s with
  | nil => cases h : pieces p t <;> simp [h]
  | cons c s ih =>
    have hrest := ih fun d hd => hs d (List.mem_cons_of_mem c hd)
    rw [List.cons_append, pieces_cons_of_not_sep (hs c List.mem_cons_self), hrest, List.modifyHead_modifyHead]
    rfl

theorem mem_of_mem_pieces {p : Char → Bool} {s piece : List Char} (h : piece ∈ pieces p s) {c : Char}
    (hc : c ∈ piece) : c ∈ s := by
  induction s generalizing piece with
  | nil =>
    rw [pieces, List.mem_singleton] at h
    rw [h] at hc
    exact hc
  | cons d s ih =>
    by_cases hd : p d = true
    · rw [pieces, if_pos hd] at h
      rcases List.mem_cons.mp h with rfl | h
      · cases hc
      · exact List.mem_cons_of_mem d (ih h hc)
    · rw [pieces_cons_of_not_sep (by simpa using hd)] at h
      cases hs : pieces p s with
      | nil => exact absurd hs (pieces_ne_nil p s)
      | cons first others =>
        rw [hs] at h ih
        rcases List.mem_cons.mp h with rfl | h
        · rcases List.mem_cons.mp hc with rfl | hc
          · exact List.mem_cons_self
          · exact List.mem_cons_of_mem d (ih List.mem_cons_self hc)
        · exact List.mem_cons_of_mem d (ih (List.mem_cons_of_mem first h) hc)

/-- Writing each character anew changes the pieces alike, where the separators stay and none comes up. -/
theorem pieces_flatMap {p : Char → Bool} {f : Char → List Char} (hsep : ∀ c, p c = true → f c = [c])
    (hother : ∀ c, p c = false → ∀ d ∈ f c, p d = false) (s : List Char) :
    pieces p (s.flatMap f) = (pieces p s).map (·.flatMap f) := by
  induction s with
  | nil => rfl
  | cons c s ih =>
    rw [List.flatMap_cons]
    by_cases hc : p c = true
    · rw [hsep c hc, List.singleton_append, pieces, if_pos hc, pieces, if_pos hc, ih]
      rfl
    · have hc : p c = false := by simpa using hc
      rw [pieces_append_of_not_sep (hother c hc), ih, pieces_cons_of_not_sep hc]
      cases pieces p s <;> rfl

/-- The parts of a path in lower case are those of the path in lower case. -/
theorem lower_segments {path : String} (h : SigmaFree path) :
    (segments path).map lower = segments (lower path) := by
  have hpieces : pieces (· == '.') (path.toList.flatMap lowerRun) =
      (pieces (· == '.') path.toList).map (·.flatMap lowerRun) := by
    apply pieces_flatMap
    · intro c hc
      rw [beq_iff_eq.mp hc]
      decide
    · intro c hc d hd
      rw [beq_eq_false_iff_ne] at hc ⊢
      intro hpoint
      exact hc (mem_lowerRun_low (by decide) (hpoint ▸ hd))
  unfold segments splitAt
  rw [toList_lower h, hpieces, List.map_map, List.map_map]
  apply List.map_congr_left
  intro piece hpiece
  have hfree : ∀ c ∈ piece, c.toNat ≠ 0x3a3 := fun c hc => h c (mem_of_mem_pieces hpiece hc)
  simp only [Function.comp, lower, String.toList_ofList, lowerChars]
  rw [lowerAfter_eq hfree]

end Soql.Text
