import Soql.Grounding.Recognition
import Soql.Proofs.Query.Lone

namespace Soql.Decimal

open Text Token

def Digits (s : List Char) : Prop :=
  s ≠ [] ∧ ∀ c ∈ s, isDecimal c = true

inductive Unsigned : List Char → Prop
  | whole {digits : List Char} (h : Digits digits) : Unsigned digits
  | places {digits after : List Char} (h : Digits digits) (hafter : Digits after) : Unsigned (digits ++ '.' :: after)

inductive Positional : List Char → Prop
  | positive {s : List Char} (h : Unsigned s) : Positional s
  | negative {s : List Char} (h : Unsigned s) : Positional ('-' :: s)

def Exponential (s : List Char) : Prop :=
  ∃ mantissa mark power, Positional mantissa ∧ (mark = '-' ∨ mark = '+') ∧ Digits power ∧
    s = mantissa ++ 'e' :: mark :: power

def AfterNumber (x : List Char) : Prop :=
  ∀ c ∈ x.head?, isDecimal c = false ∧ c ≠ '.' ∧ c ≠ '-'

section Tokens

variable {s digits x : List Char}

theorem digitCount_append (h : ∀ c ∈ digits, isDecimal c = true) (hx : ∀ c ∈ x.head?, isDecimal c = false) :
    digitCount (digits ++ x) = digits.length := by
  have hcount := digitCount_take_append digits hx
  have hall : digitCount digits = digits.length := by
    rw [digitCount, List.takeWhile_eq_self_iff.mpr h]
  rwa [hall, List.take_length] at hcount

theorem placesLength_after (hx : AfterNumber x) : placesLength x = 0 := by
  rw [placesLength_eq]
  cases x with
  | nil => rfl
  | cons c x => exact if_neg fun h => (hx c rfl).2.1 h.1

theorem numberLength_unsigned (h : Unsigned s) (hx : AfterNumber x) : numberLength (s ++ x) = some s.length := by
  cases h with
  | whole h =>
    have hcount := digitCount_append h.2 fun c hc => (hx c hc).1
    have hpos : s.length ≠ 0 := by simpa using h.1
    simp [numberLength, hcount, hpos, placesLength_after hx]
  | @places digits after h hafter =>
    have hcount : digitCount (digits ++ '.' :: (after ++ x)) = digits.length :=
      digitCount_append h.2 (by simp; decide)
    have hplaces : digitCount (after ++ x) = after.length := digitCount_append hafter.2 fun c hc => (hx c hc).1
    have hpos : digits.length ≠ 0 := by simpa using h.1
    have hsome : after.length ≠ 0 := by simpa using hafter.1
    rw [List.append_assoc, List.cons_append]
    simp [numberLength, hcount, hpos, placesLength, hplaces, hsome, Nat.add_comm]

/-- Digits that no dash follows are not the year of a date. -/
theorem hasShape_dashless {shape : List Char} (h : ∀ c ∈ digits, isDecimal c = true)
    (hx : ∀ c ∈ x.head?, isDecimal c = false ∧ c ≠ '-') (n : Nat) :
    hasShape (List.replicate n '0' ++ '-' :: shape) (digits ++ x) = false := by
  induction n generalizing digits with
  | zero =>
    cases digits with
    | nil =>
      cases x with
      | nil => rfl
      | cons c x => simp [hasShape, (hx c rfl).2]
    | cons d digits =>
      have hd : d ≠ '-' := by
        rintro rfl
        exact absurd (h '-' List.mem_cons_self) (by decide)
      simp [hasShape, hd]
  | succ n ih =>
    cases digits with
    | nil =>
      cases x with
      | nil => rfl
      | cons c x => simp [List.replicate_succ, hasShape, (hx c rfl).1]
    | cons d digits =>
      obtain ⟨hd, hrest⟩ := List.forall_mem_cons.mp h
      simp [List.replicate_succ, hasShape, hd, ih hrest]

theorem dateLength_unsigned (h : Unsigned s) (hx : AfterNumber x) : dateLength (s ++ x) = none := by
  rw [dateLength, if_neg]
  rw [Bool.not_eq_true]
  cases h with
  | whole h => exact hasShape_dashless h.2 (fun c hc => ⟨(hx c hc).1, (hx c hc).2.2⟩) 4
  | @places digits after h hafter =>
    rw [List.append_assoc]
    exact hasShape_dashless h.2 (by simp; decide) 4

theorem Unsigned.head (h : Unsigned s) : ∃ c body, s = c :: body ∧ isDecimal c = true := by
  have hdigits {digits : List Char} (h : Digits digits) : ∃ c body, digits = c :: body ∧ isDecimal c = true := by
    obtain ⟨c, body, rfl⟩ := List.exists_cons_of_ne_nil h.1
    exact ⟨c, body, rfl, h.2 c List.mem_cons_self⟩
  cases h with
  | whole h => exact hdigits h
  | places h hafter =>
    obtain ⟨c, body, rfl, hc⟩ := hdigits h
    exact ⟨c, _, rfl, hc⟩

theorem bare_of_decimal {c : Char} (hc : isDecimal c = true) : Bare c where
  blank := by
    have hsolid := solid_of_decimal hc
    rw [solid, Bool.and_eq_true, Bool.not_eq_true'] at hsolid
    exact hsolid.1
  quote := by
    rintro rfl
    exact absurd hc (by decide)
  sign := by
    rintro rfl
    exact absurd hc (by decide)

/-- A number without an exponent is a token before what does not go on with it. -/
theorem start_positional (h : Positional s) :
    ∃ c body, s = c :: body ∧ ∀ x, AfterNumber x → start c (body ++ x) = some (some .number, body.length) := by
  cases h with
  | positive h =>
    obtain ⟨c, body, rfl, hc⟩ := h.head
    refine ⟨c, body, rfl, fun x hx => ?_⟩
    exact start_iff.mpr (.number (bare_of_decimal hc) hc (dateLength_unsigned h hx) (numberLength_unsigned h hx))
  | @negative s h => exact ⟨'-', s, rfl, fun x hx => start_iff.mpr (.negative rfl (numberLength_unsigned h hx))⟩

theorem whole_positional (h : Positional s) : Token.Whole ⟨.number, .ofList s⟩ := by
  obtain ⟨c, body, rfl, hs⟩ := start_positional h
  have hstart := hs [] nofun
  rw [List.append_nil] at hstart
  exact ⟨c, body, rfl, hstart⟩

/-- A number with an exponent is read as the number before the letter, the letter, and more. -/
theorem lexes_exponential (h : Exponential s) {tokens : List Token} (hl : Lexes s tokens) :
    ∃ t more, tokens = t :: word "e" :: more ∧ t.kind = .number := by
  obtain ⟨mantissa, mark, power, hmantissa, hmark, -, rfl⟩ := h
  obtain ⟨c, body, rfl, hs⟩ := start_positional hmantissa
  have hafter : AfterNumber ('e' :: mark :: power) := by
    intro c hc
    obtain rfl := Option.some.inj hc
    decide
  obtain ⟨others, rfl, hothers⟩ := lexes_start (hs _ hafter) hl
  rw [List.drop_left] at hothers
  have hletter : start 'e' (mark :: power) = some (some .name, 0) := by
    rw [start_of_identFirst (by decide)]
    rcases hmark with rfl | rfl <;>
      simp [nameLength, dotted, dottedRest, countLength, show isIdentFirst 'e' = true by decide,
        show isIdentRest '-' = false by decide, show isIdentRest '+' = false by decide]
  obtain ⟨more, rfl, -⟩ := lexes_start hletter hothers
  exact ⟨_, more, rfl, rfl⟩

theorem Exponential.ends (h : Exponential s) : Ends s := by
  obtain ⟨mantissa, mark, power, -, -, hpower, rfl⟩ := h
  obtain ⟨c, rest, rfl⟩ := List.exists_cons_of_ne_nil hpower.1
  have hends : Ends (c :: rest) := ends_of_all fun d hd => solid_of_decimal (hpower.2 d hd)
  simpa using hends.append_left (mantissa ++ ['e', mark])

theorem Exponential.letter (h : Exponential s) : 'e' ∈ s := by
  obtain ⟨mantissa, mark, power, -, -, -, rfl⟩ := h
  simp

theorem Positional.no_letter (h : Positional s) : 'e' ∉ s := by
  have hdigits {digits : List Char} (h : Digits digits) : 'e' ∉ digits :=
    fun hmem => absurd (h.2 'e' hmem) (by decide)
  have hunsigned {s : List Char} (h : Unsigned s) : 'e' ∉ s := by
    cases h with
    | whole h => exact hdigits h
    | places h hafter => simp [hdigits h, hdigits hafter]
  cases h with
  | positive h => exact hunsigned h
  | negative h => simp [hunsigned h]

end Tokens

section Texts

theorem digits_toDigits (n : Nat) : Digits (Nat.toDigits 10 n) := by
  refine ⟨Nat.toDigits_ne_nil, ?_⟩
  intro c hc
  rw [isDecimal, digitValue_of_isDigit (Nat.isDigit_of_mem_toDigits (by decide) (by decide) hc)]
  rfl

theorem positional_toString (n : Int) : Positional (toString n).toList := by
  have hnat (n : Nat) : (toString n).toList = Nat.toDigits 10 n := Nat.toList_repr
  cases n with
  | ofNat n =>
    change Positional (toString n).toList
    rw [hnat]
    exact .positive (.whole (digits_toDigits n))
  | negSucc n =>
    change Positional ("-" ++ toString (n + 1)).toList
    rw [String.toList_append, hnat]
    exact .negative (.whole (digits_toDigits _))

theorem Digits.take {digits : List Char} (h : Digits digits) {n : Nat} (hn : n ≠ 0) : Digits (digits.take n) := by
  refine ⟨?_, fun c hc => h.2 c (List.mem_of_mem_take hc)⟩
  rw [Ne, List.take_eq_nil_iff, not_or]
  exact ⟨hn, h.1⟩

theorem Digits.padded {digits : List Char} (h : Digits digits) (n : Nat) : Digits (digits ++ List.replicate n '0') := by
  refine ⟨by simp [h.1], ?_⟩
  intro c hc
  rcases List.mem_append.mp hc with hc | hc
  · exact h.2 c hc
  · rw [List.eq_of_mem_replicate hc]
    decide

/-- The digits of a decimal are placed around a point, or stand before an exponent. -/
theorem Scientific.text_cases (d : Scientific) : Unsigned d.text.toList ∨
    ∃ mantissa mark power, Unsigned mantissa ∧ (mark = '-' ∨ mark = '+') ∧ Digits power ∧
      d.text.toList = mantissa ++ 'e' :: mark :: power := by
  have hdigits := digits_toDigits d.digits
  have hzero : Digits ['0'] := ⟨List.cons_ne_nil _ _, List.forall_mem_singleton.mpr (by decide)⟩
  unfold Scientific.text
  dsimp only
  split
  · have hnought : "0.0".toList = ['0'] ++ '.' :: ['0'] := by decide
    rw [hnought]
    exact .inl (.places hzero hzero)
  split
  · split
    -- Below one the digits stand after noughts.
    · rw [String.toList_append]
      refine .inl (@Unsigned.places ['0'] (String.ofList _).toList hzero ?_)
      rw [String.toList_ofList]
      refine ⟨by simp [hdigits.1], ?_⟩
      intro c hc
      rcases List.mem_append.mp hc with hc | hc
      · rw [List.eq_of_mem_replicate hc]
        decide
      · exact hdigits.2 c hc
    -- Otherwise the point stands behind some of them, with noughts where digits are wanting.
    · rw [String.toList_ofList]
      refine .inl (.places ((hdigits.padded _).take (Nat.succ_ne_zero _)) ?_)
      split
      · exact hzero
      · rename_i hplaces
        refine ⟨by simpa using hplaces, fun c hc => (hdigits.padded _).2 c (List.mem_of_mem_drop hc)⟩
  -- In front of an exponent the point stands behind the first digit.
  · rw [String.toList_ofList]
    right
    refine ⟨_, _, _, ?_, ?_, ?_, rfl⟩
    · split
      · rename_i hlong
        refine .places (hdigits.take Nat.one_ne_zero) ⟨?_, fun c hc => hdigits.2 c (List.mem_of_mem_drop hc)⟩
        rw [Ne, List.drop_eq_nil_iff]
        omega
      · rw [List.append_nil]
        exact .whole (hdigits.take Nat.one_ne_zero)
    · split
      · exact .inl rfl
      · exact .inr rfl
    · have hpower := digits_toDigits (d.exponent + (Nat.toDigits 10 d.digits).length - 1).natAbs
      split
      · exact ⟨by simp, List.forall_mem_cons.mpr ⟨by decide, hpower.2⟩⟩
      · exact hpower

/-- A number is written with an exponent or without one. -/
theorem numberText_cases {x : Float} {v : String} (h : Recognition.numberText x = .ok v) :
    Positional v.toList ∨ Exponential v.toList := by
  unfold Recognition.numberText at h
  split at h
  · cases h
  · rename_i n hn
    split at h
    · cases h
      exact .inl (positional_toString n)
    · cases h
      unfold shortestText
      unfold truncated at hn
      split at hn
      · rename_i negative m q hfinite
        rw [hfinite]
        dsimp only
        rw [String.toList_append]
        have hsigned {s : List Char} (h : Unsigned s) : Positional ((if negative then "-" else "").toList ++ s) := by
          cases negative with
          | false => exact .positive h
          | true => exact .negative h
        rcases (shortest m q).text_cases with hplain | ⟨mantissa, mark, power, hmantissa, hmark, hpower, htext⟩
        · exact .inl (hsigned hplain)
        · exact .inr ⟨_, mark, power, hsigned hmantissa, hmark, hpower, by rw [htext, List.append_assoc]⟩
      · cases hn

end Texts

end Soql.Decimal
