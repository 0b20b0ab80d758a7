import Soql.Proofs.Query.Spelling

namespace Soql.Token

open Text

def solid (c : Char) : Bool :=
  !isBlank c && c != ';'

/-- No row of decimal digits holds a blank. -/
theorem digitZeros_apart : ∀ first ∈ digitZeros, first = 0x30 ∨
    (0x660 ≤ first ∧ first + 10 ≤ 0x1680) ∨ (0x1680 < first ∧ first + 10 ≤ 0x2000) ∨
    0x3000 < first := by
  decide

theorem digitRow_of_decimal {c : Char} (hc : isDecimal c = true) :
    ∃ first ∈ digitZeros, first ≤ c.toNat ∧ c.toNat < first + 10 := by
  unfold isDecimal digitValue at hc
  simp only at hc
  split at hc
  · split at hc
    · rename_i hdigit
      simp only [Char.isDigit, Bool.and_eq_true, decide_eq_true_eq] at hdigit
      have hlow := UInt32.le_iff_toNat_le.mp hdigit.1
      have hhigh := UInt32.le_iff_toNat_le.mp hdigit.2
      refine ⟨0x30, by decide, hlow, ?_⟩
      exact Nat.lt_of_le_of_lt hhigh (by decide)
    · cases hc
  · rw [Option.isSome_map] at hc
    obtain ⟨first, hfind⟩ := Option.isSome_iff_exists.mp hc
    have hrow := List.find?_some hfind
    simp only [Bool.and_eq_true, decide_eq_true_eq] at hrow
    exact ⟨first, List.mem_of_find?_eq_some hfind, hrow⟩

theorem solid_of_decimal {c : Char} (hc : isDecimal c = true) : solid c = true := by
  obtain ⟨first, hmem, hlow, hhigh⟩ := digitRow_of_decimal hc
  have hrow := digitZeros_apart first hmem
  have hsemi : c ≠ ';' := by
    rintro rfl
    revert hc
    decide
  simp only [solid, isBlank, Bool.and_eq_true, Bool.not_eq_true', Bool.or_eq_false_iff,
    Bool.and_eq_false_iff, decide_eq_false_iff_not, beq_eq_false_iff_ne, bne_iff_ne]
  refine ⟨?_, hsemi⟩
  omega

theorem solid_of_identRest {c : Char} (hc : isIdentRest c = true) : solid c = true := by
  -- Beyond ASCII there is no character of an identifier.
  have h := of_ascii (p := fun c => !isIdentRest c || solid c) (by decide) (toNat_lt_of_identRest hc)
  simpa [hc] using h

structure Covers (p : Char → Prop) : Prop where
  decimal : ∀ c, isDecimal c = true → p c
  ident : ∀ c, isIdentRest c = true → p c
  marks : ∀ c ∈ ['.', '-', ':', '+'], p c

theorem covers_solid : Covers (solid · = true) where
  decimal := fun _ => solid_of_decimal
  ident := fun _ => solid_of_identRest
  marks := List.all_eq_true.mp (by decide)

theorem identRest_of_identFirst {c : Char} (h : isIdentFirst c = true) : isIdentRest c = true := by
  rw [isIdentFirst, Bool.or_eq_true] at h
  rw [isIdentRest, Char.isAlphanum, Bool.or_eq_true, Bool.or_eq_true]
  exact h.imp_left .inl

namespace Covers

variable {p : Char → Prop} (hp : Covers p)

include hp

theorem mark {c : Char} (hc : ['.', '-', ':', '+'].contains c = true) : p c :=
  hp.marks c (List.contains_iff_mem.mp hc)

theorem identFirst {c : Char} (hc : isIdentFirst c = true) : p c :=
  hp.ident c (identRest_of_identFirst hc)

theorem digits (s : List Char) : ∀ c ∈ s.take (digitCount s), p c := by
  intro c hc
  rw [digitCount, ← List.prefix_iff_eq_take.mp (List.takeWhile_prefix isDecimal)] at hc
  exact hp.decimal c (List.mem_takeWhile_imp hc)

theorem markedDigits {m : Char} (hm : p m) (s : List Char) :
    ∀ c ∈ s.take (Token.markedDigits m s), p c := by
  cases s with
  | nil => simp
  | cons d rest =>
    by_cases hd : d = m ∧ digitCount rest ≠ 0
    · rw [show Token.markedDigits m (d :: rest) = digitCount rest + 1 by
        simp [Token.markedDigits, hd, Nat.add_comm]]
      intro c hc
      rcases List.mem_cons.mp hc with rfl | hc
      · rw [hd.1]
        exact hm
      · exact hp.digits rest c hc
    · rw [show Token.markedDigits m (d :: rest) = 0 from if_neg hd]
      simp

theorem number {s : List Char} {n : Nat} (h : numberLength s = some n) : ∀ c ∈ s.take n, p c := by
  unfold numberLength at h
  simp only [beq_iff_eq] at h
  split at h
  · cases h
  · obtain rfl := Option.some.inj h
    intro c hc
    rw [List.take_add, List.mem_append, placesLength_eq] at hc
    rcases hc with hc | hc
    · exact hp.digits s c hc
    · exact hp.markedDigits (hp.mark (by decide)) _ c hc

/-- A shape of such characters stands for none but such. -/
theorem shape {shape s : List Char} (hshape : ∀ f ∈ shape, p f) (h : hasShape shape s = true) :
    ∀ c ∈ s.take shape.length, p c := by
  induction shape generalizing s with
  | nil => simp
  | cons f fs ih =>
    cases s with
    | nil => simp
    | cons d s =>
      rw [hasShape_cons] at h
      obtain ⟨hf, hfs⟩ := List.forall_mem_cons.mp hshape
      intro c hc
      rcases List.mem_cons.mp hc with rfl | hc
      · have hfit := h.1
        unfold fits at hfit
        split at hfit
        · exact hp.decimal c hfit
        · rw [eq_of_beq hfit]
          exact hf
      · exact ih hfs h.2 c hc

theorem shapeChars {shape : List Char}
    (h : (shape.all fun c => isDecimal c || isIdentRest c || ['.', '-', ':', '+'].contains c) = true) :
    ∀ f ∈ shape, p f := by
  intro f hf
  have hkind := List.all_eq_true.mp h f hf
  rw [Bool.or_eq_true, Bool.or_eq_true] at hkind
  rcases hkind with (hdecimal | hident) | hmark
  · exact hp.decimal f hdecimal
  · exact hp.ident f hident
  · exact hp.mark hmark

theorem zone (s : List Char) : ∀ c ∈ s.take (zoneLength s), p c := by
  cases s with
  | nil => simp
  | cons d rest =>
    by_cases hz : d = 'Z'
    · intro c hc
      have hcz : c = 'Z' := by simpa [hz, zoneLength] using hc
      rw [hcz]
      exact hp.ident 'Z' (by decide)
    · rw [zoneLength_cons hz]
      split
      · rename_i h
        intro c hc
        rcases List.mem_cons.mp hc with rfl | hc
        · rcases h.1 with rfl | rfl <;> exact hp.mark (by decide)
        · exact hp.shape (hp.shapeChars (by decide)) h.2 c hc
      · simp

theorem time (s : List Char) : ∀ c ∈ s.take (timeLength s), p c := by
  by_cases h : hasShape "T00:00:00".toList s = true
  · rw [timeLength, if_pos h]
    intro c hc
    simp only [List.take_add, List.mem_append, placesLength_eq] at hc
    rcases hc with (hc | hc) | hc
    · exact hp.shape (hp.shapeChars (by decide)) h c hc
    · exact hp.markedDigits (hp.mark (by decide)) _ c hc
    · exact hp.zone _ c hc
  · rw [timeLength, if_neg h]
    simp

theorem date {s : List Char} {n : Nat} (h : dateLength s = some n) : ∀ c ∈ s.take n, p c := by
  unfold dateLength at h
  split at h
  · rename_i hshape
    obtain rfl := Option.some.inj h
    intro c hc
    rw [List.take_add, List.mem_append] at hc
    rcases hc with hc | hc
    · exact hp.shape (hp.shapeChars (by decide)) hshape c hc
    · exact hp.time _ c hc
  · cases h

theorem dottedRest (s : List Char) : ∀ c ∈ (Text.dottedRest s).1, p c := by
  fun_induction Text.dottedRest s with
  | case1 d rest hd _ more after found ih =>
    rw [found] at ih
    intro c hc
    simp only [List.cons_append, List.mem_cons, List.mem_append] at hc
    rcases hc with rfl | rfl | hc | hc
    · exact hp.mark (by decide)
    · exact hp.identFirst hd
    · exact hp.ident c (List.mem_takeWhile_imp hc)
    · exact ih c hc
  | case2 => simp
  | case3 => simp

theorem dotted {s path after : List Char} (h : Text.dotted s = some (path, after)) :
    ∀ c ∈ path, p c := by
  cases s with
  | nil => cases h
  | cons d rest =>
    simp only [Text.dotted] at h
    split at h
    · rename_i hd
      cases h
      intro c hc
      simp only [List.cons_append, List.mem_cons, List.mem_append] at hc
      rcases hc with rfl | hc | hc
      · exact hp.identFirst hd
      · exact hp.ident c (List.mem_takeWhile_imp hc)
      · exact hp.dottedRest _ c hc
    · cases h

theorem name {s : List Char} {n : Nat} (h : nameLength s = some n) : ∀ c ∈ s.take n, p c := by
  obtain ⟨⟨path, after⟩, hpath, rfl⟩ := Option.map_eq_some_iff.mp h
  obtain ⟨rfl, -⟩ := dotted_append hpath
  intro c hc
  rw [List.take_length_add_append, List.mem_append, countLength_eq] at hc
  rcases hc with hc | hc
  · exact hp.dotted hpath c hc
  · exact hp.markedDigits (hp.mark (by decide)) _ c hc

/-- A token of four kinds is written with such characters. -/
theorem start {c : Char} {rest : List Char} {kind : TokenKind} {n : Nat}
    (h : Token.start c rest = some (some kind, n))
    (hkind : kind = .date ∨ kind = .number ∨ kind = .bind ∨ kind = .name) :
    ∀ d ∈ c :: rest.take n, p d := by
  have hall {m : Nat} (hm : 0 < m) (hchars : ∀ d ∈ (c :: rest).take m, p d) :
      ∀ d ∈ c :: rest.take (m - 1), p d := by
    obtain ⟨k, rfl⟩ : ∃ k, m = k + 1 := ⟨m - 1, by omega⟩
    rwa [List.take_succ_cons] at hchars
  cases start_iff.mp h with
  | literal hc hbody => simp at hkind
  | negative hc hm =>
    intro d hd
    rcases List.mem_cons.mp hd with rfl | hd
    · rw [hc]
      exact hp.mark (by decide)
    · exact hp.number hm d hd
  | date hbare hc hm => exact hall (dateLength_le hm).2 (hp.date hm)
  | number hbare hc hdate hm => exact hall (numberLength_le hm).2 (hp.number hm)
  | bind hc hrest he =>
    subst hrest
    intro d hd
    rw [Nat.add_comm 1, List.take_succ_cons,
      ← List.prefix_iff_eq_take.mp (List.takeWhile_prefix isIdentRest)] at hd
    simp only [List.mem_cons] at hd
    rcases hd with rfl | rfl | hd
    · rw [hc]
      exact hp.mark (by decide)
    · exact hp.identFirst he
    · exact hp.ident d (List.mem_takeWhile_imp hd)
  | name hbare hdigit hcolon hc hm => exact hall (nameLength_le hm).2 (hp.name hm)
  | long hrest hc => simp at hkind
  | operator hc hlong => simp at hkind
  | mark hc => simp at hkind

end Covers

/-- A text whose last character is not cut off. -/
def Ends (s : List Char) : Prop :=
  ∃ front c, s = front ++ [c] ∧ solid c = true

theorem ends_of_all {c : Char} {s : List Char} (h : ∀ d ∈ c :: s, solid d = true) : Ends (c :: s) := by
  refine ⟨(c :: s).dropLast, (c :: s).getLast (by simp), ?_, ?_⟩
  · rw [List.dropLast_append_getLast]
  · exact h _ (List.getLast_mem _)

theorem Ends.append_left {s : List Char} (hs : Ends s) (front : List Char) : Ends (front ++ s) := by
  obtain ⟨init, c, rfl, hc⟩ := hs
  exact ⟨front ++ init, c, by simp, hc⟩

/-- No token has a blank or a semicolon at its end. -/
theorem start_ends {c : Char} {rest : List Char} {kind : TokenKind} {n : Nat}
    (h : start c rest = some (some kind, n)) : Ends (c :: rest.take n) := by
  have hcovered (hkind : kind = .date ∨ kind = .number ∨ kind = .bind ∨ kind = .name) :
      Ends (c :: rest.take n) := ends_of_all (covers_solid.start h hkind)
  cases start_iff.mp h with
  | @literal body after hc hbody =>
    -- A literal ends with its quote.
    refine ⟨c :: body, c, ?_, ?_⟩
    · rw [← literalBody_append hbody, List.take_length_add_append]
      simp
    · rw [hc]
      decide
  | negative hc hm => exact hcovered (by simp)
  | date hbare hc hm => exact hcovered (by simp)
  | number hbare hc hdate hm => exact hcovered (by simp)
  | bind hc hrest he => exact hcovered (by simp)
  | name hbare hdigit hcolon hc hm => exact hcovered (by simp)
  | @long d others hrest hc =>
    refine ⟨[c], d, by simp [hrest], ?_⟩
    rcases (eq_of_isLongOperator hc).2 with rfl | rfl <;> decide
  | operator hc hlong =>
    refine ⟨[], c, by simp, ?_⟩
    rcases hc with rfl | rfl | rfl <;> decide
  | mark hc =>
    refine ⟨[], c, by simp, ?_⟩
    rcases hc with rfl | rfl | rfl <;> decide

theorem Whole.ends {t : Token} (ht : t.Whole) : Ends t.text.toList := by
  obtain ⟨c, body, htext, hs⟩ := ht
  have h := start_ends hs
  rw [List.take_length] at h
  rw [htext, String.toList_ofList]
  exact h

/-- A row of tokens ends with its last token. -/
theorem ends_textAfter {previous : Token} {ts : List Token} (hp : previous.Whole)
    (h : ∀ t ∈ ts, t.Whole) : Ends (previous.text ++ textAfter previous ts).toList := by
  induction ts generalizing previous with
  | nil => simpa [textAfter] using hp.ends
  | cons t rest ih =>
    have hrest := ih (h t (by simp)) (fun u hu => h u (by simp [hu]))
    rw [String.toList_append, textAfter]
    apply Ends.append_left
    split
    · exact hrest
    · rw [String.append_assoc, String.toList_append]
      exact hrest.append_left _

theorem ends_rowText {ts : List Token} (hne : ts ≠ []) (h : ∀ t ∈ ts, t.Whole) :
    Ends (rowText ts).toList := by
  cases ts with
  | nil => exact absurd rfl hne
  | cons t rest => exact ends_textAfter (h t (by simp)) (fun u hu => h u (by simp [hu]))

theorem dropEnd_of_ends {p : Char → Bool} (hp : ∀ c, solid c = true → p c = false) {s : List Char}
    (hs : Ends s) : dropEnd p s = s := by
  obtain ⟨front, c, rfl, hc⟩ := hs
  rw [dropEnd, List.reverse_append, List.reverse_singleton, List.singleton_append,
    List.dropWhile_cons_of_neg (by simp [hp c hc]), List.reverse_cons, List.reverse_reverse]

/-- Nothing is cut off a text that begins and ends with a character of a token. -/
theorem bareStatement_of_ends {s : String} {c : Char} {rest : List Char} (hs : s.toList = c :: rest)
    (hc : isBlank c = false) (he : Ends s.toList) : bareStatement s = s := by
  -- Neither blanks nor semicolons stand at the two ends.
  have hfront : s.toList.dropWhile isBlank = s.toList := by
    rw [hs, List.dropWhile_cons_of_neg (by simp [hc])]
  have hblank : dropEnd isBlank s.toList = s.toList :=
    dropEnd_of_ends (fun d hd => by simp_all [solid]) he
  have hsemi : dropEnd (· == ';') s.toList = s.toList :=
    dropEnd_of_ends (fun d hd => by simp_all [solid]) he
  simp only [bareStatement, trim, dropEnds, hfront, hblank, hsemi, String.ofList_toList]

/-- A text that is read as some tokens wherever it stands, and from whose end nothing is cut off. -/
structure Spells (s : String) (ts : List Token) : Prop where
  writes : Writes s ts
  ends : Ends s.toList

theorem Whole.spells {t : Token} (ht : t.Whole) : Spells t.text [t] :=
  ⟨ht.writes, ht.ends⟩

theorem Spells.not_isEmpty {s : String} {ts : List Token} (h : Spells s ts) : s.isEmpty = false := by
  obtain ⟨front, c, hc, -⟩ := h.ends
  rw [← Bool.not_eq_true, String.isEmpty_iff]
  rintro rfl
  simp at hc

theorem spells_word {w : String} (hw : isIdent w = true) : Spells w [word w] :=
  (whole_word hw).spells

theorem Spells.space {a b : String} {as bs : List Token} (ha : Spells a as) (hb : Spells b bs) :
    Spells (a ++ " " ++ b) (as ++ bs) := by
  refine ⟨ha.writes.space hb.writes, ?_⟩
  rw [String.toList_append]
  exact hb.ends.append_left _

/-- A text with a closing parenthesis ends with it, whatever stands before. -/
theorem Writes.closed {a : String} {as : List Token} (ha : Writes a as) :
    Spells (a ++ ")") (as ++ [closing]) := by
  refine ⟨ha.close, ?_⟩
  rw [String.toList_append]
  exact ⟨a.toList, ')', rfl, by decide⟩

theorem Spells.after_opening {a : String} {as : List Token} (ha : Spells a as) :
    Spells ("(" ++ a) (opening :: as) := by
  refine ⟨ha.writes.after_opening, ?_⟩
  rw [String.toList_append]
  exact ha.ends.append_left _

theorem ends_joined (sep : String) {ss : List String} (hne : ss ≠ [])
    (h : ∀ s ∈ ss, Ends s.toList) : Ends (joined sep ss).toList := by
  induction ss with
  | nil => exact absurd rfl hne
  | cons s ss ih =>
    cases ss with
    | nil => simpa [joined] using h s (by simp)
    | cons s' ss =>
      have hrest := ih (by simp) (fun u hu => h u (by simp [hu]))
      rw [joined, String.intercalate_cons_cons, String.toList_append]
      exact hrest.append_left _

/-- Texts that are set side by side, the last of them at the end. -/
theorem spells_joined {sep : String} {ss : List String} {row : List Token} {rows : List (List Token)}
    (hne : ss ≠ []) (h : List.Forall₂ Spells ss rows)
    (hrow : List.Forall₂ Writes ss rows → Writes (joined sep ss) row) :
    Spells (joined sep ss) row := by
  refine ⟨hrow (h.imp fun _ _ hs => hs.writes), ends_joined sep hne ?_⟩
  intro s hs
  obtain ⟨i, hi, rfl⟩ := List.getElem_of_mem hs
  have hlen := h.length_eq
  exact (h.get hi (by omega)).ends

end Soql.Token
