import Mathlib.Algebra.Group.Nat.Defs
import Soql.Proofs.Query.Reading

namespace Soql.Token

open Text

theorem digitValue_of_isDigit {c : Char} (hc : c.isDigit = true) :
    digitValue c = some (c.toNat - 0x30) := by
  have hascii : c.toNat < 0x80 := toNat_lt_of_isDigit hc
  simp [digitValue, hascii, hc]

theorem digitValue_lt {c : Char} {d : Nat} (h : digitValue c = some d) : d < 10 := by
  unfold digitValue at h
  simp only at h
  split at h
  · split at h
    · rename_i hdigit
      simp only [Char.isDigit, Bool.and_eq_true, decide_eq_true_eq] at hdigit
      have hhigh : c.toNat ≤ 57 := UInt32.le_iff_toNat_le.mp hdigit.2
      cases h
      omega
    · cases h
  · obtain ⟨first, hfind, hd⟩ := Option.map_eq_some_iff.mp h
    have hrow := List.find?_some hfind
    simp only [Bool.and_eq_true, decide_eq_true_eq] at hrow
    omega

def pastDigit (total : Nat) (c : Char) : Nat :=
  match digitValue c with
  | some d => 10 * total + d
  | none => total

theorem decimalValue_eq (digits : List Char) : decimalValue digits = digits.foldl pastDigit 0 :=
  rfl

theorem pastDigit_lt (total : Nat) (c : Char) : pastDigit total c + 1 ≤ (total + 1) * 10 := by
  unfold pastDigit
  split
  · rename_i d hd
    have hlt := digitValue_lt hd
    omega
  · omega

/-- A run of digits writes a number that has no more digits. -/
theorem decimalValue_lt (digits : List Char) : decimalValue digits < 10 ^ digits.length := by
  have hfold (total : Nat) : digits.foldl pastDigit total < (total + 1) * 10 ^ digits.length := by
    induction digits generalizing total with
    | nil => simp
    | cons c digits ih =>
      rw [List.foldl_cons, List.length_cons]
      calc digits.foldl pastDigit (pastDigit total c)
          < (pastDigit total c + 1) * 10 ^ digits.length := ih _
        _ ≤ ((total + 1) * 10) * 10 ^ digits.length :=
          Nat.mul_le_mul_right _ (pastDigit_lt total c)
        _ = (total + 1) * 10 ^ (digits.length + 1) := by
          rw [Nat.mul_assoc, Nat.pow_succ, Nat.mul_comm 10]
  have h := hfold 0
  rwa [Nat.zero_add, Nat.one_mul] at h

theorem decimalValue_toDigits (n : Nat) : decimalValue (Nat.toDigits 10 n) = n := by
  have hfold (digits : List Char) (hall : ∀ c ∈ digits, c.isDigit = true) (total : Nat) :
      digits.foldl pastDigit total = Nat.ofDigitChars 10 digits total := by
    induction digits generalizing total with
    | nil => rfl
    | cons c digits ih =>
      rw [List.foldl_cons, Nat.ofDigitChars_cons, pastDigit,
        digitValue_of_isDigit (hall c (by simp))]
      exact ih (fun d hd => hall d (by simp [hd])) _
  have hall : ∀ c ∈ Nat.toDigits 10 n, c.isDigit = true := by
    intro c hc
    exact Nat.isDigit_of_mem_toDigits (by decide) (by decide) hc
  rw [decimalValue_eq, hfold _ hall]
  exact Nat.ofDigitChars_ten_toDigits

/-- A number is written in digits that are read as the number. -/
theorem digits_toString (n : Nat) :
    (toString n).toList.all isDecimal = true ∧ decimalValue (toString n).toList = n := by
  have htext : (toString n).toList = Nat.toDigits 10 n := Nat.toList_repr
  rw [htext]
  refine ⟨?_, decimalValue_toDigits n⟩
  rw [List.all_eq_true]
  intro c hc
  rw [isDecimal, digitValue_of_isDigit (Nat.isDigit_of_mem_toDigits (by decide) (by decide) hc)]
  rfl

/-- A text of a shape holds the characters that the shape has for themselves. -/
theorem mem_of_hasShape {shape s : List Char} (h : hasShape shape s = true) {f : Char}
    (hf : f ∈ shape) (hdigit : f ≠ '0') : f ∈ s := by
  induction shape generalizing s with
  | nil => cases hf
  | cons g shape ih =>
    cases s with
    | nil => cases h
    | cons c s =>
      rw [hasShape_cons] at h
      rcases List.mem_cons.mp hf with rfl | hf
      · have hc : c = f := by simpa [fits, hdigit] using h.1
        simp [hc]
      · exact List.mem_cons_of_mem _ (ih h.2 hf)

theorem dateLength_of_digits {s : List Char} (hs : ∀ c ∈ s, c.isDigit = true) :
    dateLength s = none := by
  rw [dateLength, if_neg]
  intro hshape
  have hmem : '-' ∈ s := mem_of_hasShape hshape (by decide) (by decide)
  exact absurd (hs '-' hmem) (by decide)

/-- The ASCII digits of a number are one token. -/
theorem whole_count (n : Nat) : Token.Whole ⟨.number, toString n⟩ := by
  have hall : ∀ c ∈ Nat.toDigits 10 n, c.isDigit = true := by
    intro c hc
    exact Nat.isDigit_of_mem_toDigits (by decide) (by decide) hc
  have hdate := dateLength_of_digits hall
  have htext : toString n = String.ofList (Nat.toDigits 10 n) := rfl
  have hcount : digitCount (Nat.toDigits 10 n) = (Nat.toDigits 10 n).length := by
    rw [digitCount, List.takeWhile_eq_self_iff.mpr]
    intro c hc
    rw [isDecimal, digitValue_of_isDigit (hall c hc)]
    rfl
  cases hdigits : Nat.toDigits 10 n with
  | nil => exact absurd hdigits Nat.toDigits_ne_nil
  | cons c body =>
    rw [hdigits] at hall hdate hcount
    have hc := hall c (by simp)
    have hkinds : (!c.isDigit || (!isBlank c && isDecimal c && c != '\x27' && c != '-')) = true :=
      of_ascii (p := fun c => !c.isDigit || (!isBlank c && isDecimal c && c != '\x27' && c != '-'))
        (by decide) (toNat_lt_of_isDigit hc)
    simp only [hc, Bool.not_true, Bool.false_or, Bool.and_eq_true, Bool.not_eq_true',
      bne_iff_ne] at hkinds
    obtain ⟨⟨⟨hblank, hdecimal⟩, hquote⟩, hsign⟩ := hkinds
    refine ⟨c, body, by rw [htext, hdigits], ?_⟩
    have hnumber : numberLength (c :: body) = some (body.length + 1) := by
      simp [numberLength, hcount, placesLength]
    exact start_iff.mpr (.number ⟨hblank, hquote, hsign⟩ hdecimal hdate hnumber)

end Soql.Token

namespace Soql.Query

open Text Token

def IsCount (n : Nat) : Prop :=
  (Nat.toDigits 10 n).length ≤ Decimal.digitLimit

theorem isCount_decimalValue {digits : List Char} (h : digits.length ≤ Decimal.digitLimit) :
    IsCount (decimalValue digits) := by
  rw [IsCount, Nat.length_toDigits_le_iff (by decide) (by decide)]
  calc decimalValue digits < 10 ^ digits.length := decimalValue_lt digits
    _ ≤ 10 ^ Decimal.digitLimit := Nat.pow_le_pow_right (by decide) h

theorem readCount_sound {clause : String} {ts rest : List Token} {count : Option Nat}
    (h : (readCount clause).run ts = .ok (count, rest)) (hts : AllWhole ts) :
    AllWhole rest ∧ ∀ n ∈ count, IsCount n := by
  unfold readCount at h
  simp only [run_bind_ok, run_atWord_ok] at h
  obtain ⟨here, _, ⟨-, rfl⟩, h⟩ := h
  split at h
  · simp only [run_bind_ok, run_take_ok, throw_bind, run_guard_ok, run_bar_ok, run_pure_ok] at h
    obtain ⟨w, _, rfl, t, _, rfl, -, hlen, rfl, rfl⟩ := h
    refine ⟨hts.tail.tail, ?_⟩
    intro n hn
    obtain rfl := Option.some.inj hn
    exact isCount_decimalValue (by omega)
  · obtain ⟨rfl, rfl⟩ := run_pure_ok.mp h
    exact ⟨hts, by simp⟩

theorem readCount_rereads {clause : String} (hc : isReserved clause = true) {n : Nat}
    (hn : IsCount n) (rest : List Token) :
    (readCount clause).run (word clause :: ⟨.number, toString n⟩ :: rest) = .ok (some n, rest) := by
  obtain ⟨hall, hvalue⟩ := digits_toString n
  have htext : (toString n).toList = Nat.toDigits 10 n := Nat.toList_repr
  unfold readCount
  simp only [run_bind_ok, run_atWord_ok]
  refine ⟨true, _, ⟨?_, rfl⟩, ?_⟩
  · simp [isWord_reserved hc]
  · simp only [if_true, run_bind_ok, run_take_ok, throw_bind, run_guard_ok, run_bar_ok, run_pure_ok]
    refine ⟨word clause, _, rfl, ⟨.number, toString n⟩, rest, rfl, ?_, ?_, ?_, rfl⟩
    · simpa using hall
    · rw [htext]
      exact Nat.not_lt.mpr hn
    · rw [hvalue]

end Soql.Query
