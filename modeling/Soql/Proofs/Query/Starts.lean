import Soql.Proofs.Query.Boundary

namespace Soql.Token

open Text

structure Bare (c : Char) : Prop where
  blank : isBlank c = false
  quote : c ≠ '\x27'
  sign : c ≠ '-'

/-- The kind of the token that a character starts, and how many of the characters that follow belong to
it. -/
inductive Starts (c : Char) (rest : List Char) : Option TokenKind → Nat → Prop
  | blank (hc : isBlank c = true) : Starts c rest none (rest.takeWhile isBlank).length
  | literal {body after : List Char} (hc : c = '\x27') (hbody : literalBody c rest = some (body, after)) :
    Starts c rest (some .literal) (body.length + 1)
  | negative {m : Nat} (hc : c = '-') (hm : numberLength rest = some m) :
    Starts c rest (some .number) m
  | date {m : Nat} (hbare : Bare c) (hc : isDecimal c = true) (hm : dateLength (c :: rest) = some m) :
    Starts c rest (some .date) (m - 1)
  | number {m : Nat} (hbare : Bare c) (hc : isDecimal c = true) (hdate : dateLength (c :: rest) = none)
    (hm : numberLength (c :: rest) = some m) : Starts c rest (some .number) (m - 1)
  | bind {d : Char} {others : List Char} (hc : c = ':') (hrest : rest = d :: others)
    (hd : isIdentFirst d = true) :
    Starts c rest (some .bind) (1 + (others.takeWhile isIdentRest).length)
  | name {m : Nat} (hbare : Bare c) (hdigit : isDecimal c = false) (hcolon : c ≠ ':')
    (hc : isIdentFirst c = true) (hm : nameLength (c :: rest) = some m) :
    Starts c rest (some .name) (m - 1)
  | long {d : Char} {others : List Char} (hrest : rest = d :: others) (hc : isLongOperator c d = true) :
    Starts c rest (some .operator) 1
  | operator (hc : c = '=' ∨ c = '<' ∨ c = '>') (hlong : rest.head?.any (isLongOperator c) = false) :
    Starts c rest (some .operator) 0
  | mark (hc : c = ')' ∨ c = ',' ∨ c = '(') : Starts c rest (some .mark) 0

/-- The characters that can have another operator character after them. -/
theorem eq_of_isLongOperator {c d : Char} (h : isLongOperator c d = true) :
    (c = '<' ∨ c = '>' ∨ c = '!') ∧ (d = '=' ∨ d = '>') := by
  simp only [isLongOperator, Bool.or_eq_true, Bool.and_eq_true, beq_iff_eq] at h
  rcases h with ⟨rfl, (rfl | rfl) | rfl⟩ | ⟨rfl, rfl⟩ <;> simp

/-- A mark starts any text. -/
theorem start_mark {c : Char} (hc : c = ')' ∨ c = ',' ∨ c = '(') (x : List Char) :
    start c x = some (some .mark, 0) := by
  have hlong (d : Char) : isLongOperator c d = false := by
    rcases hc with rfl | rfl | rfl <;> simp [isLongOperator]
  have hany : x.head?.any (isLongOperator c) = false := by
    cases x <;> simp [hlong]
  unfold start
  rw [hany]
  rcases hc with rfl | rfl | rfl <;> rfl

theorem starts_of_start {c : Char} {rest : List Char} {kind : Option TokenKind} {n : Nat}
    (h : start c rest = some (kind, n)) : Starts c rest kind n := by
  unfold start at h
  split at h
  · rename_i hblank
    cases h
    exact .blank hblank
  rename_i hblank
  split at h
  · rename_i hquote
    obtain ⟨⟨body, after⟩, hbody, heq⟩ := Option.map_eq_some_iff.mp h
    cases heq
    exact .literal (eq_of_beq hquote) hbody
  rename_i hquote
  split at h
  · rename_i hsign
    obtain ⟨m, hm, heq⟩ := Option.map_eq_some_iff.mp h
    cases heq
    exact .negative (eq_of_beq hsign) hm
  rename_i hsign
  -- From here on the character is no blank, no quote and no sign.
  have hbare : Bare c := ⟨by simpa using hblank, by simpa using hquote, by simpa using hsign⟩
  split at h
  · rename_i hdigit
    split at h
    · rename_i m hm
      cases h
      exact .date hbare hdigit hm
    · rename_i hdate
      obtain ⟨m, hm, heq⟩ := Option.map_eq_some_iff.mp h
      cases heq
      exact .number hbare hdigit hdate hm
  rename_i hdigit
  split at h
  · rename_i hcolon
    split at h
    · split at h
      · rename_i hd
        cases h
        exact .bind (eq_of_beq hcolon) rfl hd
      · cases h
    · cases h
  rename_i hcolon
  split at h
  · rename_i hident
    obtain ⟨m, hm, heq⟩ := Option.map_eq_some_iff.mp h
    cases heq
    exact .name hbare (by simpa using hdigit) (by simpa using hcolon) hident hm
  split at h
  · rename_i hlong
    cases h
    cases rest with
    | nil => cases hlong
    | cons d others => exact .long rfl hlong
  rename_i hlong
  split at h
  · rename_i hop
    cases h
    exact .operator (by simpa [or_assoc] using hop) (by simpa using hlong)
  split at h
  · rename_i hmark
    cases h
    simp only [Bool.or_eq_true, beq_iff_eq] at hmark
    rcases hmark with (rfl | rfl) | rfl <;> exact .mark (by simp)
  · cases h

theorem Starts.start {c : Char} {rest : List Char} {kind : Option TokenKind} {n : Nat}
    (h : Starts c rest kind n) : start c rest = some (kind, n) := by
  cases h with
  | blank hc => simp [Token.start, hc]
  | literal hc hbody =>
    subst hc
    unfold Token.start
    rw [if_neg (by decide), if_pos (by decide), hbody]
    rfl
  | negative hc hm =>
    subst hc
    unfold Token.start
    rw [if_neg (by decide), if_neg (by decide), if_pos (by decide), hm]
    rfl
  | date hbare hc hm => simp [Token.start, hbare.blank, hbare.quote, hbare.sign, hc, hm]
  | number hbare hc hdate hm =>
    simp [Token.start, hbare.blank, hbare.quote, hbare.sign, hc, hdate, hm]
  | bind hc hrest hd =>
    subst hc hrest
    unfold Token.start
    rw [if_neg (by decide), if_neg (by decide), if_neg (by decide), if_neg (by decide),
      if_pos (by decide)]
    simp [hd]
  | name hbare hdigit hcolon hc hm =>
    simp [Token.start, hbare.blank, hbare.quote, hbare.sign, hdigit, hcolon, hc, hm]
  -- Only three characters begin an operator of two, none of which starts anything else.
  | long hrest hc =>
    subst hrest
    obtain ⟨hc', -⟩ := eq_of_isLongOperator hc
    unfold Token.start
    rw [List.head?_cons, Option.any_some, hc]
    rcases hc' with rfl | rfl | rfl <;> rfl
  | operator hc hlong =>
    unfold Token.start
    rw [hlong]
    rcases hc with rfl | rfl | rfl <;> rfl
  | mark hc => exact start_mark hc rest

theorem start_iff {c : Char} {rest : List Char} {kind : Option TokenKind} {n : Nat} :
    start c rest = some (kind, n) ↔ Starts c rest kind n :=
  ⟨starts_of_start, Starts.start⟩

/-- A token that starts a text lies within it. -/
theorem start_le {c : Char} {rest : List Char} {kind : Option TokenKind} {n : Nat}
    (h : start c rest = some (kind, n)) : n ≤ rest.length := by
  have hwithin {m : Nat} (hm : m ≤ (c :: rest).length) : m - 1 ≤ rest.length := by
    rw [List.length_cons] at hm
    omega
  cases start_iff.mp h with
  | blank hc => exact (List.takeWhile_sublist _).length_le
  | literal hc hbody =>
    rw [← literalBody_append hbody]
    simp
  | negative hc hm => exact (numberLength_le hm).1
  | date hbare hc hm => exact hwithin (dateLength_le hm).1
  | number hbare hc hdate hm => exact hwithin (numberLength_le hm).1
  | @bind d others hc hrest hd =>
    have htake : (others.takeWhile isIdentRest).length ≤ others.length :=
      (List.takeWhile_sublist _).length_le
    rw [hrest, List.length_cons]
    omega
  | name hbare hdigit hcolon hc hm => exact hwithin (nameLength_le hm).1
  | long hrest hc => simp [hrest]
  | operator hc hlong => exact Nat.zero_le _
  | mark hc => exact Nat.zero_le _

/-- The token that starts a text starts any text in which something apart follows it. -/
theorem start_take_append {c : Char} {rest : List Char} {kind : TokenKind} {n : Nat}
    (h : start c rest = some (some kind, n)) {x : List Char} (hx : Apart x) :
    start c (rest.take n ++ x) = some (some kind, n) := by
  have hcons {m : Nat} (hm : 0 < m) : c :: (rest.take (m - 1) ++ x) = (c :: rest).take m ++ x := by
    obtain ⟨k, rfl⟩ : ∃ k, m = k + 1 := ⟨m - 1, by omega⟩
    simp
  apply start_iff.mpr
  cases start_iff.mp h with
  | @literal body after hc hbody =>
    have hrest : rest.take (body.length + 1) ++ x = body ++ c :: x := by
      rw [← literalBody_append hbody, List.take_length_add_append]
      simp
    rw [hrest]
    exact .literal hc (literalBody_append_quote (by simp [hc]) hbody x)
  | negative hc hm => exact .negative hc (numberLength_take_append hm hx)
  | date hbare hc hm =>
    apply Starts.date hbare hc
    rw [hcons (dateLength_le hm).2, dateLength_take_append hm hx]
  -- A number is no date in its text, and it is none in front of something apart.
  | number hbare hc hdate hm =>
    apply Starts.number hbare hc
    · rw [hcons (numberLength_le hm).2, dateLength_none_take_append hdate _ hx]
    · rw [hcons (numberLength_le hm).2, numberLength_take_append hm hx]
  | @bind d others hc hrest hd =>
    have hothers : (others.take (others.takeWhile isIdentRest).length ++ x).takeWhile isIdentRest =
        others.takeWhile isIdentRest := takeWhile_take_append others hx.not_ident
    have hbind : Starts c (d :: (others.take (others.takeWhile isIdentRest).length ++ x)) (some .bind)
        (1 + ((others.take (others.takeWhile isIdentRest).length ++ x).takeWhile isIdentRest).length) :=
      .bind hc rfl hd
    rw [hothers] at hbind
    rwa [hrest, Nat.add_comm 1, List.take_succ_cons, List.cons_append, Nat.add_comm _ 1]
  | name hbare hdigit hcolon hc hm =>
    apply Starts.name hbare hdigit hcolon hc
    rw [hcons (nameLength_le hm).2, nameLength_take_append hm hx]
  | long hrest hc =>
    subst hrest
    exact .long rfl hc
  | operator hc hlong => exact .operator hc (not_longOperator hx)
  | mark hc => exact .mark hc

end Soql.Token
