import Soql.Grounding.Recognition
import Soql.Proofs.Query.Ends
import Soql.Proofs.Text.Pattern

namespace Soql

open Text Decimal Token

section Reading

theorem isNumberBlank_of_decimal {c : Char} (hc : isDecimal c = true) : isNumberBlank c = false := by
  have hsolid := solid_of_decimal hc
  rw [solid, Bool.and_eq_true, Bool.not_eq_true'] at hsolid
  rw [isNumberBlank, hsolid.1, Bool.false_and]

/-- Digits have no lower case. -/
theorem toLower_of_decimal {c : Char} (hc : isDecimal c = true) : c.toLower = c := by
  obtain ⟨first, hmem, hlow, hhigh⟩ := digitRow_of_decimal hc
  have hrow := digitZeros_apart first hmem
  unfold Char.toLower
  split
  case isTrue hupper =>
    have hfrom := UInt32.le_iff_toNat_le.mp hupper.1
    have hto := UInt32.le_iff_toNat_le.mp hupper.2
    change 65 ≤ c.toNat at hfrom
    change c.toNat ≤ 90 at hto
    omega
  case isFalse => rfl

theorem digitRun_stop {c : Char} (hc : isDecimal c = false) (rest : List Char) :
    digitRun (c :: rest) = ([], c :: rest) := by
  unfold digitRun
  split
  case h_1 heq =>
    cases heq
    simp [hc]
  case h_2 heq =>
    cases heq
    simp [hc]
  case h_3 heq => cases heq

theorem digitRun_digit {c : Char} (hc : isDecimal c = true) {rest : List Char} (hrest : rest.head? ≠ some '_') :
    digitRun (c :: rest) = (c :: (digitRun rest).1, (digitRun rest).2) := by
  conv =>
    lhs
    unfold digitRun
  split
  case h_1 heq =>
    cases heq
    exact absurd rfl hrest
  case h_2 heq =>
    cases heq
    rw [if_pos hc]
  case h_3 heq => cases heq

/-- What follows the digits of an amount: nothing, or a point and two digits. -/
def Cents (s : List Char) : Prop :=
  s = [] ∨ ∃ d e, s = ['.', d, e] ∧ isDecimal d = true ∧ isDecimal e = true

theorem Cents.chars {s : List Char} (h : Cents s) : ∀ c ∈ s, isDecimal c = true ∨ c = '.' := by
  obtain rfl | ⟨d, e, rfl, hd, he⟩ := h
  · simp
  · simp [hd, he]

/-- The characters of digits with cents after them. -/
theorem Cents.after_digits {digits cents : List Char} (hcents : Cents cents)
    (hdigits : ∀ c ∈ digits, isDecimal c = true) : ∀ c ∈ digits ++ cents, isDecimal c = true ∨ c = '.' := by
  intro c hc
  rcases List.mem_append.mp hc with hc | hc
  · exact .inl (hdigits c hc)
  · exact hcents.chars c hc

theorem digitRun_append {digits cents : List Char} (hdigits : ∀ c ∈ digits, isDecimal c = true)
    (hcents : Cents cents) : digitRun (digits ++ cents) = (digits, cents) := by
  induction digits with
  | nil =>
    obtain rfl | ⟨d, e, rfl, -, -⟩ := hcents
    · rfl
    · exact digitRun_stop (by decide) _
  | cons c digits ih =>
    have hrest : (digits ++ cents).head? ≠ some '_' := by
      intro hhead
      have hchars := hcents.after_digits fun d hd => hdigits d (List.mem_cons_of_mem c hd)
      exact absurd (hchars '_' (List.mem_of_mem_head? hhead)) (by decide)
    rw [List.cons_append, digitRun_digit (hdigits c List.mem_cons_self) hrest,
      ih fun d hd => hdigits d (List.mem_cons_of_mem c hd)]

/-- Digits and points are no word, in any letter case. -/
theorem lower_ne_word {s : List Char} (hs : ∀ c ∈ s, isDecimal c = true ∨ c = '.') {first : Char}
    (hfirst : isDecimal first = false) (hpoint : first ≠ '.') (others : List Char) :
    s.map Char.toLower ≠ first :: others := by
  intro heq
  obtain ⟨c, rest, rfl, hlower, -⟩ := List.map_eq_cons_iff.mp heq
  obtain hc | rfl := hs c List.mem_cons_self
  · rw [toLower_of_decimal hc] at hlower
    rw [hlower, hfirst] at hc
    cases hc
  · exact hpoint hlower.symm

/-- Digits and cents are a number, if there are any. -/
theorem readUnsigned_isSome {digits cents : List Char} (hdigits : ∀ c ∈ digits, isDecimal c = true)
    (hcents : Cents cents) (hsome : digits ++ cents ≠ []) : (readUnsigned (digits ++ cents)).isSome = true := by
  have hchars := hcents.after_digits hdigits
  -- The words for what is no number come first.
  have hinf : (digits ++ cents).map Char.toLower ≠ "inf".toList :=
    lower_ne_word hchars (by decide) (by decide) ['n', 'f']
  have hinfinity : (digits ++ cents).map Char.toLower ≠ "infinity".toList :=
    lower_ne_word hchars (by decide) (by decide) ['n', 'f', 'i', 'n', 'i', 't', 'y']
  have hnan : (digits ++ cents).map Char.toLower ≠ "nan".toList :=
    lower_ne_word hchars (by decide) (by decide) ['a', 'n']
  unfold readUnsigned
  dsimp only
  rw [if_neg (by rw [Bool.or_eq_true, beq_iff_eq, beq_iff_eq]; exact not_or.mpr ⟨hinf, hinfinity⟩),
    if_neg (by rwa [beq_iff_eq]), digitRun_append hdigits hcents]
  obtain rfl | ⟨d, e, rfl, hd, he⟩ := hcents
  · rw [List.append_nil] at hsome
    have hwhole : digits.isEmpty = false := by simpa using hsome
    simp [hwhole, readPower]
  · have hplaces : digitRun ([d, e] ++ []) = ([d, e], []) :=
      digitRun_append (by simp [hd, he]) (.inl rfl)
    rw [List.append_nil] at hplaces
    simp [hplaces, readPower]

theorem readFloat_isSome {digits cents : List Char} (hdigits : ∀ c ∈ digits, isDecimal c = true)
    (hcents : Cents cents) (hsome : digits ++ cents ≠ []) :
    (readFloat (.ofList (digits ++ cents))).isSome = true := by
  have hchars := hcents.after_digits hdigits
  have hblank : ∀ c ∈ digits ++ cents, isNumberBlank c = false := by
    intro c hc
    obtain hc | rfl := hchars c hc
    · exact isNumberBlank_of_decimal hc
    · decide
  have hsign : sign (digits ++ cents) = (false, digits ++ cents) := by
    unfold sign
    split
    case h_1 heq => exact absurd (hchars '-' (heq ▸ List.mem_cons_self)) (by decide)
    case h_2 heq => exact absurd (hchars '+' (heq ▸ List.mem_cons_self)) (by decide)
    case h_3 => rfl
  unfold readFloat
  rw [String.toList_ofList, dropEnds_eq_self hblank, hsign]
  simpa using readUnsigned_isSome hdigits hcents hsome

end Reading

namespace Recognition

/-- An amount is a whole part, and cents after it. -/
theorem withoutCents_append (s : List Char) : ∃ cents, s = withoutCents s ++ cents ∧ Cents cents := by
  unfold withoutCents
  dsimp only
  split
  case isTrue h =>
    rw [Bool.and_eq_true, decide_eq_true_eq] at h
    obtain ⟨hlength, hshape⟩ := h
    refine ⟨s.drop (s.length - 3), (List.take_append_drop _ s).symm, .inr ?_⟩
    have hthree : (s.drop (s.length - 3)).length = 3 := by
      rw [List.length_drop]
      omega
    obtain ⟨point, d, e, hcents⟩ := List.length_eq_three.mp hthree
    rw [hcents] at hshape ⊢
    change hasShape ['.', '0', '0'] [point, d, e] = true at hshape
    have hparts : point = '.' ∧ isDecimal d = true ∧ isDecimal e = true := by simpa [hasShape] using hshape
    exact ⟨d, e, by rw [hparts.1], hparts.2⟩
  case isFalse => exact ⟨[], (List.append_nil s).symm, .inl rfl⟩

def isOfNumber (c : Char) : Bool :=
  c != '$' && c != ','

theorem isOfNumber_of_decimal {c : Char} (hc : isDecimal c = true) : isOfNumber c = true := by
  rw [isOfNumber, Bool.and_eq_true, bne_iff_ne, bne_iff_ne]
  constructor
  · rintro rfl
    exact absurd hc (by decide)
  · rintro rfl
    exact absurd hc (by decide)

/-- Commas only, at least one of them, and possibly a currency sign in front: an amount without a number. -/
def Unpriced (s : List Char) : Prop :=
  ∃ commas, commas ≠ [] ∧ (∀ c ∈ commas, c = ',') ∧ (s = commas ∨ s = '$' :: commas)

/-- An amount is something with its currency sign or without one, which is digits and commas but for its
cents. -/
theorem amount_split {s : List Char} (h : isCurrency s = true) :
    ∃ amount, (s = amount ∨ s = '$' :: amount) ∧ withoutCents amount ≠ [] ∧
      ∀ c ∈ withoutCents amount, isDecimal c = true ∨ c = ',' := by
  unfold isCurrency at h
  dsimp only at h
  rw [Bool.and_eq_true, Bool.and_eq_true] at h
  obtain ⟨⟨-, hsome⟩, hwhole⟩ := h
  refine ⟨_, ?_, by simpa using hsome, by simpa using hwhole⟩
  split
  case h_1 => exact .inr rfl
  case h_2 => exact .inl rfl

/-- An amount whose number cannot be read has none. -/
theorem unpriced_of_unread {s : List Char} (h : isCurrency s = true)
    (hunread : readFloat (.ofList (s.filter isOfNumber)) = none) : Unpriced s := by
  obtain ⟨amount, hamount, hsome, hwhole⟩ := amount_split h
  obtain ⟨cents, hcents, hshape⟩ := withoutCents_append amount
  have hfilter : s.filter isOfNumber = (withoutCents amount).filter isOfNumber ++ cents := by
    have hkept : cents.filter isOfNumber = cents := by
      rw [List.filter_eq_self]
      intro c hc
      obtain hc | rfl := hshape.chars c hc
      · exact isOfNumber_of_decimal hc
      · decide
    rw [← hkept, ← List.filter_append, ← hcents]
    obtain rfl | rfl := hamount
    · rfl
    · exact List.filter_cons_of_neg (by decide)
  have hdigits : ∀ c ∈ (withoutCents amount).filter isOfNumber, isDecimal c = true := by
    intro c hc
    rw [List.mem_filter] at hc
    obtain hdecimal | rfl := hwhole c hc.1
    · exact hdecimal
    · exact absurd hc.2 (by decide)
  -- What remains without the signs would be a number.
  have hnone : (withoutCents amount).filter isOfNumber ++ cents = [] := by
    by_contra hnumber
    have hread := readFloat_isSome hdigits hshape hnumber
    rw [← hfilter, hunread] at hread
    cases hread
  obtain ⟨hnodigits, rfl⟩ := List.append_eq_nil_iff.mp hnone
  rw [List.append_nil] at hcents
  rw [← hcents] at hsome hwhole hnodigits
  refine ⟨amount, hsome, ?_, hamount⟩
  intro c hc
  obtain hdecimal | hcomma := hwhole c hc
  · exact absurd (isOfNumber_of_decimal hdecimal) (List.filter_eq_nil_iff.mp hnodigits c hc)
  · exact hcomma

theorem numberText_error {x : Float} {f : Failure} (h : numberText x = .error f) : f = .infinite := by
  unfold numberText at h
  split at h
  · cases h
    rfl
  · cases h

theorem numberText_bind_error {x : Float} {next : String → Except Failure (Option Recognition)} {f : Failure}
    (hnext : ∀ text, next text ≠ .error f) (h : (numberText x >>= next) = .error f) : f = .infinite := by
  cases htext : numberText x with
  | ok text =>
    rw [htext] at h
    exact absurd h (hnext text)
  | error g =>
    rw [htext] at h
    cases h
    exact numberText_error htext

/-- A value that cannot be read is an amount without a number, or has a number beyond all others. -/
theorem of_error {v : String} {f : Failure} (h : Recognition.of v = .error f) :
    f = .infinite ∨ f = .notANumber ∧ Unpriced (trim v.toList) := by
  unfold of at h
  dsimp only at h
  -- The forms are tried in their order; only two of them read a number.
  split at h
  · cases h
  split at h
  · cases h
  split at h
  · cases h
  split at h
  · cases h
  split at h
  · cases h
  split at h
  case isTrue hcurrency =>
    split at h
    case h_1 hunread =>
      cases h
      exact .inr ⟨rfl, unpriced_of_unread hcurrency hunread⟩
    case h_2 => exact .inl (numberText_bind_error (fun _ hnever => by cases hnever) h)
  case isFalse =>
    split at h
    · exact .inl (numberText_bind_error (fun _ hnever => by cases hnever) h)
    split at h
    · cases h
    split at h
    · cases h
    split at h
    · cases h
    · cases h

end Recognition

end Soql
