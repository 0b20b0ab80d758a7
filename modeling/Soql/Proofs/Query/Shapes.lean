import Soql.Proofs.Decimal.Notation

namespace Soql.Token

open Text Decimal

inductive Marked (mark : Char) : List Char → Prop
  | none : Marked mark []
  | digits {s : List Char} (h : Digits s) : Marked mark (mark :: s)

inductive Identifier : List Char → Prop
  | mk {c : Char} {rest : List Char} (hc : isIdentFirst c = true) (hrest : ∀ d ∈ rest, isIdentRest d = true) :
    Identifier (c :: rest)

inductive Dotted : List Char → Prop
  | one {s : List Char} (h : Identifier s) : Dotted s
  | more {s others : List Char} (h : Identifier s) (hothers : Dotted others) : Dotted (s ++ '.' :: others)

/-- A text is as long as a pattern, in which a nought stands for any digit and another character for itself. -/
def Fits (pattern s : List Char) : Prop :=
  List.Forall₂ (fun f c => fits f c = true) pattern s

inductive Zone : List Char → Prop
  | none : Zone []
  | universal : Zone ['Z']
  | offset {sign : Char} {s : List Char} (hsign : sign = '+' ∨ sign = '-') (h : Fits "00:00".toList s) :
    Zone (sign :: s)

def operatorTexts : List String :=
  ["!=", "<=", ">=", "<>", "=", "<", ">"]

/-- The texts of the tokens of each kind. -/
inductive Shape : TokenKind → List Char → Prop
  | literal {body : List Char} (h : Body body) : Shape .literal ('\x27' :: (body ++ ['\x27']))
  | day {s : List Char} (h : Fits "0000-00-00".toList s) : Shape .date s
  | moment {day time places zone : List Char} (hday : Fits "0000-00-00".toList day)
    (htime : Fits "T00:00:00".toList time) (hplaces : Marked '.' places) (hzone : Zone zone) :
    Shape .date (day ++ (time ++ (places ++ zone)))
  | number {s : List Char} (h : Positional s) : Shape .number s
  | bind {s : List Char} (h : Identifier s) : Shape .bind (':' :: s)
  | name {path count : List Char} (hpath : Dotted path) (hcount : Marked ':' count) : Shape .name (path ++ count)
  | operator {w : String} (h : w ∈ operatorTexts) : Shape .operator w.toList
  | mark {c : Char} (h : c = ')' ∨ c = ',' ∨ c = '(') : Shape .mark [c]

section Found

theorem digits_take {s : List Char} (h : digitCount s ≠ 0) : Digits (s.take (digitCount s)) := by
  rw [digitCount, ← List.prefix_iff_eq_take.mp (List.takeWhile_prefix isDecimal)]
  exact ⟨fun hnil => h (by rw [digitCount, hnil]; rfl), fun c hc => List.mem_takeWhile_imp hc⟩

theorem marked_take (mark : Char) (s : List Char) : Marked mark (s.take (markedDigits mark s)) := by
  cases s with
  | nil => exact .none
  | cons c rest =>
    by_cases hc : c = mark ∧ digitCount rest ≠ 0
    · obtain ⟨rfl, hdigits⟩ := hc
      have hlength : markedDigits c (c :: rest) = digitCount rest + 1 := by
        simp [markedDigits, hdigits, Nat.add_comm]
      rw [hlength, List.take_succ_cons]
      exact .digits (digits_take hdigits)
    · rw [show markedDigits mark (c :: rest) = 0 from if_neg hc]
      exact .none

theorem unsigned_take {s : List Char} {n : Nat} (h : numberLength s = some n) : Unsigned (s.take n) := by
  unfold numberLength at h
  simp only [beq_iff_eq] at h
  split at h
  case isTrue => cases h
  case isFalse hdigits =>
    obtain rfl := Option.some.inj h
    have hplaces := marked_take '.' (s.drop (digitCount s))
    rw [List.take_add, placesLength_eq]
    generalize (s.drop (digitCount s)).take _ = places at hplaces ⊢
    cases hplaces with
    | none =>
      rw [List.append_nil]
      exact .whole (digits_take hdigits)
    | digits hplaces => exact .places (digits_take hdigits) hplaces

theorem fits_take {pattern s : List Char} (h : hasShape pattern s = true) : Fits pattern (s.take pattern.length) := by
  induction pattern generalizing s with
  | nil => exact .nil
  | cons f pattern ih =>
    cases s with
    | nil => cases h
    | cons c s =>
      obtain ⟨hc, hs⟩ := (hasShape_cons f c pattern s).mp h
      exact .cons hc (ih hs)

theorem zone_take (s : List Char) : Zone (s.take (zoneLength s)) := by
  cases s with
  | nil => exact .none
  | cons c rest =>
    by_cases hz : c = 'Z'
    · subst hz
      exact .universal
    · rw [zoneLength_cons hz]
      split
      case isTrue h => exact .offset h.1 (fits_take h.2)
      case isFalse => exact .none

theorem date_take {s : List Char} {n : Nat} (h : dateLength s = some n) : Shape .date (s.take n) := by
  unfold dateLength at h
  split at h
  case isFalse => cases h
  case isTrue hday =>
    obtain rfl := Option.some.inj h
    unfold timeLength
    split
    case isFalse => exact .day (fits_take hday)
    case isTrue htime =>
      simp only [List.take_add, List.append_assoc]
      refine .moment (fits_take hday) (fits_take htime) ?_ (zone_take _)
      rw [placesLength_eq, List.drop_drop]
      exact marked_take '.' _

theorem identifier_run {c : Char} (hc : isIdentFirst c = true) (rest : List Char) :
    Identifier (c :: rest.takeWhile isIdentRest) :=
  .mk hc fun _ hd => List.mem_takeWhile_imp hd

/-- The further parts of a dotted name go on with an identifier in front of them. -/
theorem dotted_dottedRest (s : List Char) {front : List Char} (h : Identifier front) :
    Dotted (front ++ (dottedRest s).1) := by
  fun_induction dottedRest s generalizing front with
  | case1 c rest hc _ more after found ih =>
    rw [found] at ih
    have hmore : Dotted (c :: rest.takeWhile isIdentRest ++ more) := ih (identifier_run hc rest)
    simpa using Dotted.more h hmore
  | case2 =>
    rw [List.append_nil]
    exact .one h
  | case3 =>
    rw [List.append_nil]
    exact .one h

theorem dotted_path {s path after : List Char} (h : dotted s = some (path, after)) : Dotted path := by
  cases s with
  | nil => cases h
  | cons c rest =>
    simp only [dotted] at h
    split at h
    case isFalse => cases h
    case isTrue hc =>
      cases h
      exact dotted_dottedRest _ (identifier_run hc rest)

theorem name_take {s : List Char} {n : Nat} (h : nameLength s = some n) : Shape .name (s.take n) := by
  obtain ⟨⟨path, after⟩, hpath, rfl⟩ := Option.map_eq_some_iff.mp h
  obtain ⟨rfl, -⟩ := dotted_append hpath
  rw [List.take_length_add_append, countLength_eq]
  exact .name (dotted_path hpath) (marked_take ':' after)

/-- Each token has the shape of its kind. -/
theorem shape_of_start {c : Char} {rest : List Char} {kind : TokenKind} {n : Nat}
    (h : start c rest = some (some kind, n)) : Shape kind (c :: rest.take n) := by
  have hcons {m : Nat} (hm : 0 < m) : c :: rest.take (m - 1) = (c :: rest).take m := by
    obtain ⟨k, rfl⟩ : ∃ k, m = k + 1 := ⟨m - 1, by omega⟩
    rfl
  -- Each rule takes exactly the characters that its shape has.
  cases start_iff.mp h with
  | @literal body after hc hbody =>
    subst hc
    rw [← literalBody_append hbody, List.take_length_add_append]
    exact .literal (body_of_literalBody hbody)
  | negative hc hm =>
    subst hc
    exact .number (.negative (unsigned_take hm))
  | date hbare hc hm =>
    rw [hcons (dateLength_le hm).2]
    exact date_take hm
  | number hbare hc hdate hm =>
    rw [hcons (numberLength_le hm).2]
    exact .number (.positive (unsigned_take hm))
  | @bind d others hc hrest hd =>
    subst hc hrest
    rw [Nat.add_comm, List.take_succ_cons, ← List.prefix_iff_eq_take.mp (List.takeWhile_prefix isIdentRest)]
    exact .bind (identifier_run hd others)
  | name hbare hdigit hcolon hc hm =>
    rw [hcons (nameLength_le hm).2]
    exact name_take hm
  | @long d others hrest hc =>
    subst hrest
    simp only [isLongOperator, Bool.or_eq_true, Bool.and_eq_true, beq_iff_eq] at hc
    rcases hc with ⟨rfl, (rfl | rfl) | rfl⟩ | ⟨rfl, rfl⟩
    · exact .operator (w := "<=") (by decide)
    · exact .operator (w := ">=") (by decide)
    · exact .operator (w := "!=") (by decide)
    · exact .operator (w := "<>") (by decide)
  | operator hc hlong =>
    rcases hc with rfl | rfl | rfl
    · exact .operator (w := "=") (by decide)
    · exact .operator (w := "<") (by decide)
    · exact .operator (w := ">") (by decide)
  | mark hc => exact .mark hc

end Found

section Begun

theorem numberLength_of_decimal {c : Char} (hc : isDecimal c = true) (rest : List Char) :
    ∃ n, numberLength (c :: rest) = some n := by
  have hdigits : digitCount (c :: rest) ≠ 0 := by simp [digitCount, hc]
  exact ⟨_, if_neg (by simpa using hdigits)⟩

/-- A digit starts a date or a number. -/
theorem start_of_decimal {c : Char} (hc : isDecimal c = true) (rest : List Char) :
    ∃ kind n, start c rest = some (some kind, n) := by
  have hbare := bare_of_decimal hc
  cases hdate : dateLength (c :: rest) with
  | some m => exact ⟨_, _, start_iff.mpr (.date hbare hc hdate)⟩
  | none =>
    obtain ⟨n, hn⟩ := numberLength_of_decimal hc rest
    exact ⟨_, _, start_iff.mpr (.number hbare hc hdate hn)⟩

/-- A date or a number starts where a text begins with one. -/
theorem start_of_digits {s : List Char} (h : ∃ d others, s = d :: others ∧ isDecimal d = true) {c : Char}
    {rest : List Char} (hs : s <+: c :: rest) : ∃ kind n, start c rest = some (some kind, n) := by
  obtain ⟨d, others, rfl, hd⟩ := h
  obtain rfl := (List.cons_prefix_cons.mp hs).1
  exact start_of_decimal hd rest

theorem start_of_operator {c : Char} (hc : c = '=' ∨ c = '<' ∨ c = '>') (rest : List Char) :
    ∃ kind n, start c rest = some (some kind, n) := by
  cases hlong : rest.head?.any (isLongOperator c) with
  | false => exact ⟨_, _, start_iff.mpr (.operator hc hlong)⟩
  | true =>
    cases rest with
    | nil => cases hlong
    | cons d others => exact ⟨_, _, start_iff.mpr (.long rfl hlong)⟩

theorem Dotted.exists_cons {s : List Char} (h : Dotted s) : ∃ c rest, s = c :: rest ∧ isIdentFirst c = true := by
  cases h with
  | one h =>
    obtain ⟨hc, -⟩ := h
    exact ⟨_, _, rfl, hc⟩
  | more h =>
    obtain ⟨hc, -⟩ := h
    exact ⟨_, _, List.cons_append, hc⟩

theorem Fits.exists_cons {pattern s : List Char} (h : Fits ('0' :: pattern) s) :
    ∃ c rest, s = c :: rest ∧ isDecimal c = true := by
  cases h with
  | cons hc _ => exact ⟨_, _, rfl, hc⟩

/-- Where a text begins with the shape of a token, some token starts. -/
theorem Shape.start {kind : TokenKind} {s : List Char} (h : Shape kind s) {c : Char} {rest : List Char}
    (hs : s <+: c :: rest) : ∃ found n, start c rest = some (some found, n) := by
  cases h with
  | literal hbody =>
    obtain ⟨x, hx⟩ := hs
    rw [List.cons_append, List.append_assoc] at hx
    obtain ⟨rfl, rfl⟩ := List.cons.inj hx
    exact ⟨_, _, start_iff.mpr (.literal rfl (hbody.literalBody x))⟩
  | day h => exact start_of_digits h.exists_cons hs
  | moment hday => exact start_of_digits hday.exists_cons ((List.prefix_append _ _).trans hs)
  | number h =>
    cases h with
    | positive h => exact start_of_digits h.head hs
    | negative h =>
      obtain ⟨d, others, rfl, hd⟩ := h.head
      obtain ⟨rfl, x, rfl⟩ := List.cons_prefix_cons.mp hs
      obtain ⟨n, hn⟩ := numberLength_of_decimal hd (others ++ x)
      exact ⟨_, _, start_iff.mpr (.negative rfl hn)⟩
  | bind h =>
    obtain ⟨hd, -⟩ := h
    obtain ⟨rfl, x, rfl⟩ := List.cons_prefix_cons.mp hs
    exact ⟨_, _, start_iff.mpr (.bind rfl List.cons_append hd)⟩
  | name hpath =>
    obtain ⟨d, others, rfl, hd⟩ := hpath.exists_cons
    obtain rfl := (List.cons_prefix_cons.mp hs).1
    refine ⟨.name, ?_⟩
    rw [start_of_identFirst hd, nameLength, dotted, if_pos hd]
    exact ⟨_, rfl⟩
  | operator h =>
    simp only [operatorTexts, List.mem_cons, List.not_mem_nil, or_false] at h
    rcases h with rfl | rfl | rfl | rfl | rfl | rfl | rfl <;>
      obtain ⟨rfl, x, rfl⟩ := List.cons_prefix_cons.mp hs
    · exact ⟨_, _, start_iff.mpr (.long rfl rfl)⟩
    -- All others begin with a character that is an operator of its own.
    all_goals exact start_of_operator (by decide) _
  | mark hc =>
    obtain rfl := (List.cons_prefix_cons.mp hs).1
    exact ⟨_, _, start_mark hc rest⟩

/-- No token starts and no blanks stand where a text begins with no shape of a token, and with no blank. -/
theorem start_eq_none_iff {c : Char} {rest : List Char} :
    start c rest = none ↔ isBlank c = false ∧ ∀ kind s, s <+: c :: rest → ¬Shape kind s := by
  constructor
  · intro hnone
    constructor
    · rw [← Bool.not_eq_true]
      intro hblank
      rw [start_iff.mpr (.blank hblank)] at hnone
      cases hnone
    · intro kind s hs hshape
      obtain ⟨found, n, hfound⟩ := hshape.start hs
      rw [hfound] at hnone
      cases hnone
  · rintro ⟨hblank, hshapes⟩
    match hstart : start c rest with
    | none => rfl
    | some (some kind, n) =>
      have hstarts : c :: rest.take n <+: c :: rest := (List.prefix_cons_inj c).mpr (List.take_prefix n rest)
      exact absurd (shape_of_start hstart) (hshapes kind _ hstarts)
    | some (none, n) =>
      cases start_iff.mp hstart with
      | blank hc =>
        rw [hblank] at hc
        cases hc

end Begun

end Soql.Token
