import Soql.Proofs.Text.Swap

namespace Soql.Text

open Token

/-- No identifier begins with the character, not even for a search that ignores case. -/
def Dull (c : Char) : Prop :=
  ∀ a, isIdentFirst a = true → sameFolded a c = false

theorem Dull.not_identFirst {c : Char} (hc : Dull c) : isIdentFirst c = false := by
  rw [← Bool.not_eq_true]
  intro hfirst
  have hsame : sameFolded c c = true := by simp [sameFolded]
  rw [hc c hfirst] at hsame
  cases hsame

theorem dull_of_quiet {c : Char} (hc : quiet c = true) : Dull c :=
  fun _ ha => sameFolded_of_quiet ha hc

theorem dull_of_decimal {c : Char} (hc : isDecimal c = true) : Dull c := by
  intro a ha
  by_cases hascii : c.toNat < 128
  · have hquiet := of_ascii (p := fun c => !isDecimal c || quiet c) (by decide) hascii
    rw [hc, Bool.not_true, Bool.false_or] at hquiet
    exact sameFolded_of_quiet ha hquiet
  -- None of the characters that a search takes for ASCII letters is a digit.
  · rw [← Bool.not_eq_true, sameFolded_iff]
    intro hsame
    have hfold := fold_of_pathChar (d := a) (by simp [isPathChar, identRest_of_identFirst ha])
    rw [hsame] at hfold
    have hchar : c = Char.ofNat c.toNat := (Char.ofNat_toNat c).symm
    rcases eq_of_fold (Nat.le_of_not_lt hascii) hfold.1 hfold.2 with hcode | hcode | hcode | hcode <;>
    · rw [hchar, hcode] at hc
      revert hc
      decide

/-- Every row of digits beyond ASCII lies within one span of letters and numbers. -/
theorem digitZeros_spans : ∀ first ∈ digitZeros, first = 0x30 ∨
    (letterSpans.any fun span => span.1 ≤ first && first + 9 ≤ span.2) = true := by
  decide +kernel

theorem joinsPath_of_decimal {c : Char} (hc : isDecimal c = true) : joinsPath c = true := by
  by_cases hascii : c.toNat < 128
  · have hjoins := of_ascii (p := fun c => !isDecimal c || joinsPath c) (by decide) hascii
    simpa [hc] using hjoins
  · obtain ⟨first, hmem, hlow, hhigh⟩ := digitRow_of_decimal hc
    rcases digitZeros_spans first hmem with rfl | hspan
    · omega
    · obtain ⟨span, hspan, hwithin⟩ := List.any_eq_true.mp hspan
      simp only [Bool.and_eq_true, decide_eq_true_eq] at hwithin
      have hcovered : covered letterSpans c.toNat = true := by
        refine List.any_eq_true.mpr ⟨span, hspan, ?_⟩
        simp only [Bool.and_eq_true, decide_eq_true_eq]
        omega
      simp [joinsPath, isWord, isAlphanumeric, hascii, hcovered]

/-- What could begin an identifier in a text stands behind what joins it, where `free` tells that nothing
before the text does. -/
def Sheltered : Bool → List Char → Prop
  | _, [] => True
  | free, c :: s => (free = true → Dull c) ∧ Sheltered (!joinsPath c) s

theorem sheltered_of_dull {s : List Char} (hs : ∀ c ∈ s, Dull c) (free : Bool) : Sheltered free s := by
  induction s generalizing free with
  | nil => trivial
  | cons c s ih =>
    obtain ⟨hc, hs⟩ := List.forall_mem_cons.mp hs
    exact ⟨fun _ => hc, ih hs _⟩

/-- Nothing is exchanged in such a text. -/
theorem renameFrom_sheltered {path : List Char} {new : List Char → List Char} (hpath : PathText path)
    {s : List Char} {free : Bool}
    (hs : Sheltered free s) : renameFrom path new 0 free s = s := by
  induction s generalizing free with
  | nil => exact renameFrom_nil hpath free
  | cons c s ih =>
    obtain ⟨a, others, rfl, ha⟩ := id hpath.first
    obtain ⟨hc, hrest⟩ := hs
    have hfails : pathStands (a :: others) free (c :: s) = false := by
      cases free with
      | false => rfl
      | true => simp [pathStands, beginsFolded, hc rfl a ha]
    rw [renameFrom_fails hfails, ih hrest]

/-- Digits of any script shelter what follows as the noughts of a shape do. -/
theorem sheltered_shape {shape s x : List Char} (h : hasShape shape s = true) {free : Bool}
    (hshape : Sheltered free (shape ++ x)) : Sheltered free (s.take shape.length ++ x) := by
  induction shape generalizing s free with
  | nil => exact hshape
  | cons f fs ih =>
    cases s with
    | nil => cases h
    | cons c s =>
      obtain ⟨hfit, hfits⟩ := (hasShape_cons f c fs s).mp h
      obtain ⟨hf, hrest⟩ := hshape
      unfold fits at hfit
      split at hfit
      · rename_i hnought
        rw [eq_of_beq hnought] at hrest
        refine ⟨fun _ => dull_of_decimal hfit, ?_⟩
        rw [joinsPath_of_decimal hfit]
        exact ih hfits hrest
      · rw [eq_of_beq hfit]
        exact ⟨hf, ih hfits hrest⟩

theorem sheltered_digits {s x : List Char} (hs : ∀ c ∈ s, isDecimal c = true) (hx : Sheltered false x) :
    Sheltered false (s ++ x) := by
  induction s with
  | nil => exact hx
  | cons c s ih =>
    obtain ⟨hc, hs⟩ := List.forall_mem_cons.mp hs
    refine ⟨nofun, ?_⟩
    rw [joinsPath_of_decimal hc]
    exact ih hs

theorem isDecimal_of_mem_digits {s : List Char} {c : Char} (hc : c ∈ s.take (digitCount s)) :
    isDecimal c = true := by
  rw [digitCount, ← List.prefix_iff_eq_take.mp (List.takeWhile_prefix isDecimal)] at hc
  exact List.mem_takeWhile_imp hc

/-- A mark with digits after it is written with nothing else. -/
theorem mem_markedDigits {mark c : Char} {s : List Char} (hc : c ∈ s.take (markedDigits mark s)) :
    c = mark ∨ isDecimal c = true := by
  cases s with
  | nil => simp at hc
  | cons d rest =>
    rw [markedDigits] at hc
    split at hc
    · rename_i hd
      rw [Nat.add_comm, List.take_succ_cons] at hc
      rcases List.mem_cons.mp hc with rfl | hc
      · exact .inl hd.1
      · exact .inr (isDecimal_of_mem_digits hc)
    · simp at hc

theorem sheltered_places {s x : List Char} (hx : Sheltered false x) :
    Sheltered false (s.take (markedDigits '.' s) ++ x) := by
  cases s with
  | nil => exact hx
  | cons c rest =>
    rw [markedDigits]
    split
    · rename_i hc
      rw [Nat.add_comm, List.take_succ_cons, hc.1]
      exact ⟨fun h => absurd h Bool.false_ne_true, sheltered_digits (fun _ => isDecimal_of_mem_digits) hx⟩
    · exact hx

theorem dull_nought : Dull '0' :=
  dull_of_quiet (by decide)

theorem joins_nought : joinsPath '0' = true := by
  decide

theorem sheltered_zone (s : List Char) : Sheltered false (s.take (zoneLength s)) := by
  cases s with
  | nil => trivial
  | cons c rest =>
    by_cases hz : c = 'Z'
    · rw [hz]
      exact ⟨nofun, trivial⟩
    · rw [zoneLength_cons hz]
      split
      · rename_i h
        have hsign : joinsPath c = false := by rcases h.1 with rfl | rfl <;> decide
        have hcolon : joinsPath ':' = false := by decide
        have hshape : Sheltered true (rest.take 5 ++ []) := sheltered_shape h.2
          (by simp [Sheltered, dull_nought, joins_nought, hcolon])
        rw [List.append_nil] at hshape
        refine ⟨nofun, ?_⟩
        rwa [hsign]
      · trivial

theorem sheltered_time (s : List Char) : Sheltered false (s.take (timeLength s)) := by
  by_cases h : hasShape "T00:00:00".toList s = true
  · rw [timeLength, if_pos h]
    simp only [List.take_add, List.append_assoc, placesLength_eq]
    -- The letter in front stands behind the digits of the day, and the zone behind those of the seconds.
    have hzone := sheltered_places (s := s.drop 9) (sheltered_zone (s.drop (9 + markedDigits '.' (s.drop 9))))
    have hletter : joinsPath 'T' = true := by decide
    have hcolon : joinsPath ':' = false := by decide
    exact sheltered_shape h (by simpa [Sheltered, dull_nought, joins_nought, hletter, hcolon] using hzone)
  · rw [timeLength, if_neg h]
    trivial

/-- In a date no path is exchanged. -/
theorem sheltered_date {s : List Char} {n : Nat} (h : dateLength s = some n) : Sheltered true (s.take n) := by
  unfold dateLength at h
  split at h
  · rename_i hdate
    obtain rfl := Option.some.inj h
    have hsign : joinsPath '-' = false := by decide
    rw [List.take_add]
    exact sheltered_shape hdate
      (by simpa [Sheltered, dull_nought, joins_nought, hsign] using sheltered_time (s.drop 10))
  · cases h

theorem dull_number {s : List Char} {n : Nat} (h : numberLength s = some n) : ∀ c ∈ s.take n, Dull c := by
  unfold numberLength at h
  simp only [beq_iff_eq] at h
  split at h
  · cases h
  · obtain rfl := Option.some.inj h
    intro c hc
    rw [List.take_add, List.mem_append, placesLength_eq] at hc
    rcases hc with hc | hc
    · exact dull_of_decimal (isDecimal_of_mem_digits hc)
    · rcases mem_markedDigits hc with rfl | hdecimal
      · exact dull_of_quiet (by decide)
      · exact dull_of_decimal hdecimal

end Soql.Text
