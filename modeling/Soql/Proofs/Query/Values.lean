import Soql.Proofs.Query.Reading

namespace Soql.Token

open Text

theorem start_name {c : Char} {rest : List Char} {n : Nat}
    (h : start c rest = some (some .name, n)) :
    isIdentFirst c = true ∧ nameLength (c :: rest) = some (n + 1) := by
  cases start_iff.mp h with
  | name hbare hdigit hcolon hc hm =>
    refine ⟨hc, ?_⟩
    rw [hm, Nat.sub_add_cancel (nameLength_le hm).2]

/-- A text is the token of a name where all of it is a name. -/
theorem whole_word_iff {w : String} :
    (word w).Whole ↔ nameLength w.toList = some w.toList.length := by
  constructor
  · rintro ⟨c, body, hw, hs⟩
    have hlen := (start_name hs).2
    have hlist : w.toList = c :: body := by
      have htext := congrArg String.toList hw
      simpa [word] using htext
    rw [hlist, hlen]
    rfl
  · intro h
    cases hw : w.toList with
    | nil =>
      rw [hw] at h
      cases h
    | cons c body =>
      rw [hw] at h
      have hfirst : isIdentFirst c = true := by
        by_contra hc
        simp [nameLength, dotted, hc] at h
      refine ⟨c, body, ?_, ?_⟩
      · rw [← hw, String.ofList_toList]
        rfl
      · rw [start_of_identFirst hfirst, h]
        rfl

theorem toUpper_of_not_ascii {c : Char} (hc : ¬c.toNat < 128) : c.toUpper = c := by
  unfold Char.toUpper
  rw [dif_neg]
  rintro ⟨-, hhigh⟩
  exact hc (Nat.lt_of_le_of_lt (UInt32.le_iff_toNat_le.mp hhigh) (by decide))

/-- Writing a character in capitals changes none of its kinds. -/
theorem toUpper_kinds (c : Char) : isIdentFirst c.toUpper = isIdentFirst c ∧
    isIdentRest c.toUpper = isIdentRest c ∧ isDecimal c.toUpper = isDecimal c ∧
    (c.toUpper = '.' ↔ c = '.') ∧ (c.toUpper = ':' ↔ c = ':') ∧ c.toUpper.toUpper = c.toUpper := by
  by_cases hc : c.toNat < 128
  · have h := of_ascii (p := fun c => isIdentFirst c.toUpper == isIdentFirst c &&
      isIdentRest c.toUpper == isIdentRest c && isDecimal c.toUpper == isDecimal c &&
      (c.toUpper == '.') == (c == '.') && (c.toUpper == ':') == (c == ':') &&
      c.toUpper.toUpper == c.toUpper) (by decide) hc
    simp only [Bool.and_eq_true, beq_iff_eq] at h
    obtain ⟨⟨⟨⟨⟨hfirst, hrest⟩, hdigit⟩, hpoint⟩, hcolon⟩, htwice⟩ := h
    refine ⟨hfirst, hrest, hdigit, ?_, ?_, htwice⟩
    · rw [← beq_iff_eq, hpoint, beq_iff_eq]
    · rw [← beq_iff_eq, hcolon, beq_iff_eq]
  · have h := toUpper_of_not_ascii hc
    simp [h]

/-- A character that is no capital letter stands for itself alone in capitals. -/
theorem eq_of_toUpper {c d : Char} (h : c.toUpper = d) (hd : d.isUpper = false) : c = d := by
  subst h
  by_cases hc : c.toNat < 128
  · have hself := of_ascii (p := fun c => c.toUpper.isUpper || c == c.toUpper) (by decide) hc
    rw [hd, Bool.false_or] at hself
    exact eq_of_beq hself
  · exact (toUpper_of_not_ascii hc).symm

/-- A text without capital letters stands for itself alone in capitals. -/
theorem eq_of_capitals {s u : String} (h : s.map Char.toUpper = u)
    (hu : u.toList.all (!·.isUpper) = true) : s = u := by
  subst h
  rw [String.toList_map, List.all_map, List.all_eq_true] at hu
  have hself : ∀ c ∈ s.toList, c = c.toUpper := fun c hc => eq_of_toUpper rfl (by simpa using hu c hc)
  apply String.toList_injective
  rw [String.toList_map, ← List.map_congr_left hself, List.map_id']

theorem takeWhile_toUpper {p : Char → Bool} (hp : ∀ c, p c.toUpper = p c) (s : List Char) :
    (s.map Char.toUpper).takeWhile p = (s.takeWhile p).map Char.toUpper ∧
      (s.map Char.toUpper).dropWhile p = (s.dropWhile p).map Char.toUpper := by
  have hcomp : p ∘ Char.toUpper = p := funext hp
  rw [List.takeWhile_map, List.dropWhile_map, hcomp]
  exact ⟨rfl, rfl⟩

theorem dottedRest_toUpper (s : List Char) : dottedRest (s.map Char.toUpper) =
    ((dottedRest s).1.map Char.toUpper, (dottedRest s).2.map Char.toUpper) := by
  fun_induction dottedRest s with
  | case1 c rest hc _ more after found ih =>
    rw [found] at ih
    have hrun := takeWhile_toUpper (p := isIdentRest) (fun c => (toUpper_kinds c).2.1) rest
    have hpoint : Char.toUpper '.' = '.' := by decide
    rw [List.map_cons, List.map_cons, hpoint, dottedRest, (toUpper_kinds c).1, if_pos hc]
    simp only [hrun.1, hrun.2, ih, List.map_append, List.map_cons, hpoint]
  | case2 c rest hc =>
    have hpoint : Char.toUpper '.' = '.' := by decide
    rw [List.map_cons, List.map_cons, hpoint, dottedRest, (toUpper_kinds c).1, if_neg hc]
    simp
  | case3 s hs =>
    rw [List.map_nil]
    unfold dottedRest
    split
    · rename_i c rest heq
      obtain ⟨d, s₁, rfl, hd, hs₁⟩ := List.map_eq_cons_iff.mp heq
      obtain ⟨e, s₂, rfl, -, -⟩ := List.map_eq_cons_iff.mp hs₁
      rw [(toUpper_kinds d).2.2.2.1.mp hd] at hs
      exact absurd rfl (hs e s₂)
    · rfl

theorem dotted_toUpper (s : List Char) : dotted (s.map Char.toUpper) =
    (dotted s).map fun (path, after) => (path.map Char.toUpper, after.map Char.toUpper) := by
  cases s with
  | nil => rfl
  | cons c rest =>
    have hrun := takeWhile_toUpper (p := isIdentRest) (fun c => (toUpper_kinds c).2.1) rest
    simp only [List.map_cons, dotted, (toUpper_kinds c).1, hrun.1, hrun.2, dottedRest_toUpper]
    split <;> simp

theorem countLength_toUpper (s : List Char) :
    countLength (s.map Char.toUpper) = countLength s := by
  have hdigits (s : List Char) : digitCount (s.map Char.toUpper) = digitCount s := by
    rw [digitCount, (takeWhile_toUpper (fun c => (toUpper_kinds c).2.2.1) s).1, List.length_map,
      digitCount]
  rw [countLength_eq, countLength_eq]
  cases s with
  | nil => rfl
  | cons c rest =>
    simp only [List.map_cons, markedDigits, (toUpper_kinds c).2.2.2.2.1, hdigits]

theorem nameLength_toUpper (s : List Char) : nameLength (s.map Char.toUpper) = nameLength s := by
  rw [nameLength, nameLength, dotted_toUpper, Option.map_map]
  congr 1
  funext p
  simp [countLength_toUpper]

/-- A name in capitals is a name. -/
theorem Whole.capitals {w : String} (h : (word w).Whole) : (word (w.map Char.toUpper)).Whole := by
  rw [whole_word_iff] at h ⊢
  rw [String.toList_map, nameLength_toUpper, List.length_map]
  exact h

/-- What is a name in capitals is a name. -/
theorem whole_of_capitals {w : String} (h : (word (w.map Char.toUpper)).Whole) : (word w).Whole := by
  rw [whole_word_iff] at h ⊢
  rw [String.toList_map, nameLength_toUpper, List.length_map] at h
  exact h

/-- A word of the language in any letter case is a token. -/
theorem whole_of_upper {w u : String} (hu : isReserved u = true) (h : w.map Char.toUpper = u) :
    (word w).Whole := by
  apply whole_of_capitals
  rw [h]
  exact whole_word (isIdent_of_isReserved hu)

theorem capitals_twice (w : String) : (w.map Char.toUpper).map Char.toUpper = w.map Char.toUpper := by
  apply String.toList_injective
  rw [String.toList_map, String.toList_map, List.map_map]
  congr 1
  funext c
  exact (toUpper_kinds c).2.2.2.2.2

end Soql.Token

namespace Soql.Query

open Text Token

def IsValue (v : String) : Prop :=
  ∃ t : Token, t.Whole ∧ t.text = v ∧ ∀ stop, Rereads readValue stop [t] v

theorem literal_rereads {t : Token}
    (hk : t.kind = .literal ∨ t.kind = .date ∨ t.kind = .number ∨ t.kind = .bind)
    (stop : List Token → Prop) : Rereads readValue stop [t] t.text := by
  intro rest hrest
  unfold readValue
  rw [List.singleton_append, run_bind_ok]
  refine ⟨t, rest, run_take t rest, ?_⟩
  rcases hk with hk | hk | hk | hk <;> rw [hk] <;> rfl

theorem readValue_literal {t : Token} (ht : t.Whole)
    (hk : t.kind = .literal ∨ t.kind = .date ∨ t.kind = .number ∨ t.kind = .bind) :
    IsValue t.text :=
  ⟨t, ht, rfl, literal_rereads hk⟩

theorem null_rereads {w : String} (hw : (word w).upper = "NULL") (stop : List Token → Prop) :
    Rereads readValue stop [word w] "null" := by
  intro rest hrest
  unfold readValue
  rw [List.singleton_append, run_bind_ok]
  refine ⟨word w, rest, run_take _ rest, ?_⟩
  simp only [hw]
  rfl

theorem readValue_null : IsValue "null" :=
  ⟨word "null", whole_word (by decide), rfl, null_rereads (upper_word (by decide))⟩

/-- A name that is a value is read in capitals. -/
theorem name_rereads {w : String} (hnull : (word w).upper ≠ "NULL")
    (hvalue : ((word w).isWord ["TRUE", "FALSE"] || isDateName (word w).upper) = true)
    (stop : List Token → Prop) : Rereads readValue stop [word w] (word w).upper := by
  intro rest hrest
  unfold readValue
  rw [List.singleton_append, run_bind_ok]
  refine ⟨_, rest, run_take _ rest, ?_⟩
  simp only [word] at hvalue hnull ⊢
  simp only [beq_iff_eq, hnull, if_false, hvalue, if_true]
  rfl

/-- A name that is a value is one again when it is written in capitals. -/
theorem readValue_name {t : Token} (ht : t.Whole) (hk : t.kind = .name)
    (hnull : t.upper ≠ "NULL") (hvalue : (t.isWord ["TRUE", "FALSE"] || isDateName t.upper) = true) :
    IsValue t.upper := by
  obtain ⟨kind, w⟩ := t
  obtain rfl : kind = .name := hk
  have htwice : (word (word w).upper).upper = (word w).upper := capitals_twice w
  refine ⟨word (word w).upper, ht.capitals, rfl, ?_⟩
  have hagain := name_rereads (w := (word w).upper) (by rwa [htwice])
    (by rwa [Token.isWord, htwice])
  rwa [htwice] at hagain

theorem readValue_sound {ts rest : List Token} {v : String}
    (h : readValue.run ts = .ok (v, rest)) (hts : AllWhole ts) :
    ∃ t, ts = t :: rest ∧ IsValue v ∧ v.map Char.toUpper = t.upper := by
  unfold readValue at h
  simp only [run_bind_ok, run_take_ok] at h
  obtain ⟨t, _, rfl, h⟩ := h
  have ht := hts.head
  split at h
  · rename_i hk
    obtain ⟨rfl, rfl⟩ := run_pure_ok.mp h
    exact ⟨t, rfl, readValue_literal ht (by simp [hk]), rfl⟩
  · rename_i hk
    obtain ⟨rfl, rfl⟩ := run_pure_ok.mp h
    exact ⟨t, rfl, readValue_literal ht (by simp [hk]), rfl⟩
  · rename_i hk
    obtain ⟨rfl, rfl⟩ := run_pure_ok.mp h
    exact ⟨t, rfl, readValue_literal ht (by simp [hk]), rfl⟩
  · rename_i hk
    obtain ⟨rfl, rfl⟩ := run_pure_ok.mp h
    exact ⟨t, rfl, readValue_literal ht (by simp [hk]), rfl⟩
  · rename_i hk
    split at h
    · rename_i hnull
      obtain ⟨rfl, rfl⟩ := run_pure_ok.mp h
      refine ⟨t, rfl, readValue_null, ?_⟩
      rw [eq_of_beq hnull]
      exact upper_word (by decide)
    · rename_i hnull
      rw [run_guard_ok, run_pure_ok] at h
      obtain ⟨hvalue, rfl, rfl⟩ := h
      exact ⟨t, rfl, readValue_name ht hk (by simpa using hnull) hvalue, capitals_twice t.text⟩
  · exact absurd h run_throw_ok
  · exact absurd h run_throw_ok

theorem IsValue.spelled {v : String} (h : IsValue v) :
    Spelled (·.upper = v.map Char.toUpper) readValue (fun _ => True) v v := by
  obtain ⟨t, ht, rfl, hread⟩ := h
  exact ⟨t, [], rfl, ht.spells, hread _⟩

def IsValueList (first s : String) : Prop :=
  ∃ t ts, t.upper = first ∧ Spells s (opening :: t :: ts) ∧
    ∀ stop, Rereads readValueList stop (t :: ts) s

/-- Texts in parentheses are read as a list of the values that they are read as one by one. -/
theorem readValueList_of_texts {first : Token → Prop} {s v : String} {ss vs : List String}
    (hv : Spelled first readValue (fun _ => True) s v)
    (hvs : List.Forall₂ (Spelled anyFirst readValue fun _ => True) ss vs) :
    ∃ t ts, first t ∧ Spells ("(" ++ joined ", " (s :: ss) ++ ")") (opening :: t :: ts) ∧
      ∀ stop, Rereads readValueList stop (t :: ts) ("(" ++ joined ", " (v :: vs) ++ ")") := by
  obtain ⟨u, us, hu, hspells, hread⟩ := commaList_of_texts (fun _ => trivial) hv hvs
  refine ⟨u, us ++ [closing], hu, ?_, ?_⟩
  · have hclosed := hspells.writes.closed.after_opening
    rwa [← String.append_assoc] at hclosed
  · intro stop rest hrest
    unfold readValueList
    simp only [run_bind_ok, run_takeMark_ok, run_pure_ok]
    refine ⟨v :: vs, closing :: rest, ?_, (), rest, rfl, rfl, rfl⟩
    have hvalues := hread (closing :: rest) ⟨trivial, rfl⟩
    simpa using hvalues

/-- Values in parentheses are a list of values. -/
theorem isValueList_of_values {v : String} {others : List String} (h : ∀ y ∈ v :: others, IsValue y) :
    IsValueList (v.map Char.toUpper) ("(" ++ joined ", " (v :: others) ++ ")") := by
  have hothers : List.Forall₂ (Spelled anyFirst readValue fun _ => True) others others := by
    rw [List.forall₂_same]
    intro y hy
    exact (h y (by simp [hy])).spelled.weaken (fun _ _ => trivial) (fun _ h => h)
  exact readValueList_of_texts (h v (by simp)).spelled hothers

/-- A list of values is read as values in parentheses. -/
theorem readValueList_values {ts rest : List Token} {s : String}
    (h : readValueList.run ts = .ok (s, rest)) (hts : AllWhole ts) :
    AllWhole rest ∧ ∃ t after v others, ts = t :: after ∧ v.map Char.toUpper = t.upper ∧
      s = "(" ++ joined ", " (v :: others) ++ ")" ∧ ∀ y ∈ v :: others, IsValue y := by
  have hitem : Yields readValue IsValue := by
    intro us after v hv hus
    obtain ⟨t, rfl, hvalue, -⟩ := readValue_sound hv hus
    exact ⟨hvalue, hus.tail⟩
  unfold readValueList at h
  simp only [run_bind_ok, run_takeMark_ok, run_pure_ok] at h
  obtain ⟨values, mid, hvalues, _, _, rfl, rfl, rfl⟩ := h
  obtain ⟨⟨-, hall⟩, hmid⟩ := commaList_yields hitem hvalues hts
  obtain ⟨v, others, after, rfl, hv⟩ := commaList_head hvalues
  obtain ⟨t, rfl, hvalue, hupper⟩ := readValue_sound hv hts
  exact ⟨hmid.tail, t, after, v, others, rfl, hupper, rfl, hall⟩

theorem readValueList_sound {ts rest : List Token} {s : String}
    (h : readValueList.run ts = .ok (s, rest)) (hts : AllWhole ts) :
    AllWhole rest ∧ ∃ t after, ts = t :: after ∧ IsValueList t.upper s := by
  obtain ⟨hrest, t, after, v, others, rfl, hupper, rfl, hall⟩ := readValueList_values h hts
  exact ⟨hrest, t, after, rfl, hupper ▸ isValueList_of_values hall⟩

theorem IsValueList.values {first s : String} (h : IsValueList first s) :
    ∃ v others, v.map Char.toUpper = first ∧ s = "(" ++ joined ", " (v :: others) ++ ")" ∧
      ∀ y ∈ v :: others, IsValue y := by
  obtain ⟨t, ts, rfl, hspells, hread⟩ := h
  have hwhole : AllWhole (opening :: t :: ts) := whole_of_scan (hspells.writes.lexes 0)
  have hrun := hread (fun _ => True) [] trivial
  rw [List.append_nil] at hrun
  obtain ⟨-, u, after, v, others, heq, hupper, hs, hall⟩ := readValueList_values hrun hwhole.tail
  obtain ⟨rfl, -⟩ := List.cons.inj heq
  exact ⟨v, others, hupper, hs, hall⟩

def isSymbol : Operator → Bool
  | .equal | .unequal | .angled | .less | .atMost | .greater | .atLeast => true
  | _ => false

theorem isSymbol_symbolOperator (text : String) : isSymbol (symbolOperator text) = true := by
  unfold symbolOperator
  split <;> rfl

theorem symbolOperator_text {op : Operator} (h : isSymbol op = true) :
    symbolOperator op.text = op := by
  cases op <;> first | rfl | cases h

theorem whole_symbol {op : Operator} (h : isSymbol op = true) :
    Token.Whole ⟨.operator, op.text⟩ := by
  cases op with
  | equal => exact ⟨'=', [], by rfl, by decide⟩
  | unequal => exact ⟨'!', ['='], by rfl, by decide⟩
  | angled => exact ⟨'<', ['>'], by rfl, by decide⟩
  | less => exact ⟨'<', [], by rfl, by decide⟩
  | atMost => exact ⟨'<', ['='], by rfl, by decide⟩
  | greater => exact ⟨'>', [], by rfl, by decide⟩
  | atLeast => exact ⟨'>', ['='], by rfl, by decide⟩
  | _ => cases h

end Soql.Query
