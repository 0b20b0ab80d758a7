import Soql.Proofs.Query.Arguments
import Soql.Proofs.Query.Essence

namespace Soql.Query

open Text Token

variable {α β : Type}

def Retold (ts rest : List Token) (s : String) : Prop :=
  ∃ front us, ts = front ++ rest ∧ Writes s us ∧ Alike front us

def RetoldAll (ts rest : List Token) (pieces : List String) : Prop :=
  ∃ front rows, ts = front ++ rest ∧ List.Forall₂ Writes pieces rows ∧ Alike front rows.flatten

def Retells (r : Reader α) (text : α → String) : Prop :=
  ∀ ⦃ts rest : List Token⦄ ⦃a : α⦄, r.run ts = .ok (a, rest) → AllWhole ts → Retold ts rest (text a)

def RetellsAll (r : Reader α) (pieces : α → List String) : Prop :=
  ∀ ⦃ts rest : List Token⦄ ⦃a : α⦄, r.run ts = .ok (a, rest) → AllWhole ts → RetoldAll ts rest (pieces a)

theorem AllWhole.right {front rest : List Token} (h : AllWhole (front ++ rest)) : AllWhole rest :=
  fun t ht => h t (List.mem_append_right front ht)

theorem AllWhole.left {front rest : List Token} (h : AllWhole (front ++ rest)) : AllWhole front :=
  fun t ht => h t (List.mem_append_left rest ht)

namespace Retold

variable {ts mid rest : List Token} {s s' : String}

theorem whole (h : Retold ts rest s) (hts : AllWhole ts) : AllWhole rest := by
  obtain ⟨front, us, rfl, -, -⟩ := h
  exact hts.right

/-- A text may be put together from its parts in another way. -/
theorem of_toList (h : Retold ts rest s) (heq : s.toList = s'.toList) : Retold ts rest s' :=
  String.toList_injective heq ▸ h

/-- A token that is a text of its own. -/
theorem token {t : Token} (ht : t.Whole) (rest : List Token) : Retold (t :: rest) rest t.text :=
  ⟨[t], [t], rfl, ht.writes, .refl [t]⟩

/-- A word of the language, in whichever letter case. -/
theorem reserved {t : Token} (ht : t.Whole) {w : String} (hw : isReserved w = true) (hupper : t.upper = w)
    (rest : List Token) : Retold (t :: rest) rest w :=
  ⟨[t], [word w], rfl, writes_word (isIdent_of_isReserved hw), .word_cons ht hw hupper .nil⟩

theorem space (h : Retold ts mid s) (h' : Retold mid rest s') : Retold ts rest (s ++ " " ++ s') := by
  obtain ⟨front, us, rfl, hs, halike⟩ := h
  obtain ⟨front', us', rfl, hs', halike'⟩ := h'
  exact ⟨front ++ front', us ++ us', (List.append_assoc ..).symm, hs.space hs', halike.append halike'⟩

/-- A word of the language in front. -/
theorem after_word {t : Token} (ht : t.Whole) {w : String} (hw : isReserved w = true) (hupper : t.upper = w)
    (h : Retold ts rest s) : Retold (t :: ts) rest (w ++ " " ++ s) :=
  (reserved ht hw hupper ts).space h

theorem close (h : Retold ts (closing :: rest) s) : Retold ts rest (s ++ ")") := by
  obtain ⟨front, us, rfl, hs, halike⟩ := h
  exact ⟨front ++ [closing], us ++ [closing], by simp, hs.close, halike.append (.refl _)⟩

theorem after_opening (h : Retold ts rest s) : Retold (opening :: ts) rest ("(" ++ s) := by
  obtain ⟨front, us, rfl, hs, halike⟩ := h
  exact ⟨opening :: front, opening :: us, rfl, hs.after_opening, .both rfl halike⟩

/-- A parenthesis in front of the tokens need not be written. -/
theorem drop_opening (h : Retold ts rest s) : Retold (opening :: ts) rest s := by
  obtain ⟨front, us, rfl, hs, halike⟩ := h
  exact ⟨opening :: front, us, rfl, hs, .omittedLeft rfl halike⟩

theorem drop_closing (h : Retold ts (closing :: rest) s) : Retold ts rest s := by
  obtain ⟨front, us, rfl, hs, halike⟩ := h
  refine ⟨front ++ [closing], us, by simp, hs, ?_⟩
  simpa using halike.append (.omittedLeft (t := closing) rfl .nil)

/-- Parentheses may be written where none are. -/
theorem parenthesized (h : Retold ts rest s) : Retold ts rest ("(" ++ s ++ ")") := by
  obtain ⟨front, us, rfl, hs, halike⟩ := h
  refine ⟨front, opening :: (us ++ [closing]), rfl, hs.after_opening.close, .omittedRight rfl ?_⟩
  simpa using halike.append (.omittedRight (u := closing) rfl .nil)

/-- Something in parentheses is written right after a name. -/
theorem before_parenthesis {t : Token} (ht : t.Whole) (h : Retold ts rest ("(" ++ s)) :
    Retold (t :: ts) rest (t.text ++ "(" ++ s) := by
  obtain ⟨front, us, rfl, hs, halike⟩ := h
  refine ⟨t :: front, t :: us, rfl, ?_, .both rfl halike⟩
  rw [String.append_assoc]
  exact ht.writes.before_mark hs (c := '(') (by decide) (by simp; rfl)

theorem all (h : Retold ts rest s) : RetoldAll ts rest [s] := by
  obtain ⟨front, us, rfl, hs, halike⟩ := h
  exact ⟨front, [us], rfl, .cons hs .nil, by simpa using halike⟩

end Retold

namespace RetoldAll

variable {ts mid rest : List Token} {pieces pieces' : List String}

theorem nil (ts : List Token) : RetoldAll ts ts [] :=
  ⟨[], [], rfl, .nil, .nil⟩

theorem whole (h : RetoldAll ts rest pieces) (hts : AllWhole ts) : AllWhole rest := by
  obtain ⟨front, us, rfl, -, -⟩ := h
  exact hts.right

theorem append (h : RetoldAll ts mid pieces) (h' : RetoldAll mid rest pieces') :
    RetoldAll ts rest (pieces ++ pieces') := by
  obtain ⟨front, rows, rfl, hs, halike⟩ := h
  obtain ⟨front', rows', rfl, hs', halike'⟩ := h'
  refine ⟨front ++ front', rows ++ rows', (List.append_assoc ..).symm, List.rel_append hs hs', ?_⟩
  rw [List.flatten_append]
  exact halike.append halike'

/-- Several texts with spaces between them. -/
theorem joined (h : RetoldAll ts rest pieces) : Retold ts rest (Text.joined " " pieces) := by
  obtain ⟨front, rows, rfl, hs, halike⟩ := h
  exact ⟨front, rows.flatten, rfl, writes_joined_space hs, halike⟩

end RetoldAll

theorem takeName_retells (what : String) : Retells (takeName what) id := by
  intro ts rest s h hts
  obtain rfl := run_takeName_ok.mp h
  exact Retold.token hts.head rest

section Rows

variable {item : Reader α} {text : α → String}

/-- Items with separators between them are said again by their texts with other separators that say the
same. -/
theorem separated_retells {isSeparator : Token → Bool} {sep : Token} (hitem : Retells item text)
    (hsep : ∀ t : Token, t.Whole → isSeparator t = true → t.folded = sep.folded) (fuel : Nat)
    {ts rest : List Token} {xs : List α} (h : (separated isSeparator item fuel).run ts = .ok (xs, rest))
    (hts : AllWhole ts) :
    ∃ front rows, ts = front ++ rest ∧ rows ≠ [] ∧ List.Forall₂ Writes (xs.map text) rows ∧
      Alike front ([sep].intercalate rows) := by
  induction fuel generalizing ts xs with
  | zero => exact absurd h run_throw_ok
  | succ fuel ih =>
    rw [separated] at h
    obtain ⟨first, ts₁, hfirst, hnext⟩ := run_bind_ok.mp h
    obtain ⟨front, us, rfl, hwrites, halike⟩ := hitem hfirst hts
    obtain ⟨next, ts₂, hpeek, hmore⟩ := run_bind_ok.mp hnext
    obtain ⟨rfl, rfl⟩ := run_peek_ok.mp hpeek
    split at hmore
    case isTrue hsome =>
      -- The separator that was read is told by the one that is written.
      obtain ⟨t, ts₃, htake, hothers⟩ := run_bind_ok.mp hmore
      obtain rfl := run_take_ok.mp htake
      obtain ⟨others, ts₄, hrun, hout⟩ := run_bind_ok.mp hothers
      obtain ⟨rfl, rfl⟩ := run_pure_ok.mp hout
      have hwhole := hts.right
      obtain ⟨front', rows, rfl, hne, hrows, halike'⟩ := ih hrun hwhole.tail
      have hboth : Alike (t :: front') (sep :: [sep].intercalate rows) :=
        .both (hsep t hwhole.head hsome) halike'
      refine ⟨front ++ t :: front', us :: rows, by simp, by simp, .cons hwrites hrows, ?_⟩
      obtain ⟨row, rows, rfl⟩ := List.exists_cons_of_ne_nil hne
      rw [List.intercalate_cons_cons, List.append_assoc]
      exact halike.append hboth
    case isFalse =>
      obtain ⟨rfl, rfl⟩ := run_pure_ok.mp hmore
      exact ⟨front, [us], rfl, by simp, .cons hwrites .nil, by rwa [List.intercalate_singleton]⟩

theorem commaList_retells (hitem : Retells item text) :
    Retells (commaList item) fun xs => joined ", " (xs.map text) := by
  intro ts rest xs h hts
  obtain ⟨us, mid, hget, hrun⟩ := run_bind_ok.mp h
  obtain ⟨rfl, rfl⟩ := run_get_ok.mp hget
  have hcomma : ∀ t : Token, t.Whole → t.isMark "," = true → t.folded = comma.folded := by
    intro t _ ht
    rw [isMark_iff.mp ht]
    rfl
  obtain ⟨front, rows, rfl, -, hrows, halike⟩ := separated_retells hitem hcomma _ hrun hts
  exact ⟨front, _, rfl, writes_joined_comma hrows, halike⟩

end Rows

section Calls

/-- An empty argument at the end adds no more than a comma. -/
theorem alike_without_last (rows : List (List Token)) :
    Alike ([comma].intercalate (rows ++ [[]])) ([comma].intercalate rows) := by
  induction rows with
  | nil => exact .nil
  | cons row rows ih =>
    cases rows with
    | nil =>
      rw [List.singleton_append, List.intercalate_cons_cons, List.intercalate_singleton, List.intercalate_singleton,
        List.append_nil]
      simpa using (Alike.refl row).append (.omittedLeft (t := comma) rfl .nil)
    | cons row' rows =>
      rw [List.cons_append, List.cons_append, List.intercalate_cons_cons, List.intercalate_cons_cons]
      exact (Alike.refl _).append ih

theorem readArguments_retells : Retells readArguments fun args => "(" ++ joined ", " args ++ ")" := by
  intro ts rest args h hts
  obtain ⟨parts, hne, rfl, -, rfl⟩ := readArguments_cut h
  have hinside : ∀ row ∈ parts, AllWhole row :=
    fun row hrow t ht => hts t (by simp [mem_intercalate hrow ht])
  have hkept : ∀ kept : List (List Token), kept.Sublist parts →
      Alike ([comma].intercalate parts) ([comma].intercalate kept) →
      Retold ([comma].intercalate parts ++ closing :: rest) (closing :: rest) (joined ", " (kept.map rowText)) :=
    fun kept hsub halike => ⟨_, _, rfl, writes_rowTexts fun row hrow => hinside row (hsub.mem hrow), halike⟩
  apply Retold.close
  apply Retold.after_opening
  split
  case isTrue hempty =>
    -- The empty argument at the end is left out, and with it a comma.
    obtain ⟨front, last, rfl⟩ := (List.eq_nil_or_concat' parts).resolve_left hne
    obtain rfl : last = [] := by simpa using hempty
    rw [List.dropLast_concat]
    exact hkept front (List.sublist_append_left front [[]]) (alike_without_last front)
  case isFalse => exact hkept parts (List.Sublist.refl parts) (.refl _)

/-- Arguments in parentheses are written right after the name of what is called. -/
theorem Retold.callText {ts rest : List Token} {name : String} {args : List String}
    (h : Retold ts rest ("(" ++ joined ", " args ++ ")")) (hname : (word name).Whole) :
    Retold (word name :: ts) rest (callText name args) := by
  rw [String.append_assoc] at h
  have hcall := h.before_parenthesis hname
  rwa [← String.append_assoc] at hcall

theorem readExpression_retells : Retells readExpression id := by
  intro ts rest e h hts
  unfold readExpression at h
  simp only [run_bind_ok, run_takeName_ok, run_atMark_ok] at h
  obtain ⟨name, after, rfl, call?, _, ⟨-, rfl⟩, h⟩ := h
  split at h
  · simp only [run_bind_ok, run_pure_ok] at h
    obtain ⟨args, _, hargs, rfl, rfl⟩ := h
    exact (readArguments_retells hargs hts.tail).callText hts.head
  · obtain ⟨rfl, rfl⟩ := run_pure_ok.mp h
    exact Retold.token hts.head after

end Calls

section Values

theorem readValue_retells : Retells readValue id := by
  intro ts rest v h hts
  unfold readValue at h
  simp only [run_bind_ok, run_take_ok] at h
  obtain ⟨t, after, rfl, h⟩ := h
  have ht := hts.head
  have hsame : (pure t.text : Reader String).run after = .ok (v, rest) → Retold (t :: after) rest v := by
    intro hout
    obtain ⟨rfl, rfl⟩ := run_pure_ok.mp hout
    exact Retold.token ht after
  split at h
  case h_1 => exact hsame h
  case h_2 => exact hsame h
  case h_3 => exact hsame h
  case h_4 => exact hsame h
  case h_5 hkind =>
    have hfolded := folded_of_name hkind
    -- A name is a value in its capitals, and only the null among them is written small.
    split at h
    case isTrue hnull =>
      obtain ⟨rfl, rfl⟩ := run_pure_ok.mp h
      refine ⟨[t], [word "null"], rfl, writes_word (by decide), .both ?_ .nil⟩
      rw [hfolded, eq_of_beq hnull, folded_word, upper_word (u := "NULL") (by decide)]
    case isFalse =>
      rw [run_guard_ok, run_pure_ok] at h
      obtain ⟨-, rfl, rfl⟩ := h
      have hname : t = word t.text := by
        obtain ⟨kind, text⟩ := t
        cases hkind
        rfl
      have hcapitals : (word t.upper).Whole := by
        rw [hname] at ht
        exact ht.capitals
      refine ⟨[t], [word t.upper], rfl, hcapitals.writes, .both ?_ .nil⟩
      rw [hfolded, folded_word]
      exact congrArg word (capitals_twice t.text).symm
  case h_6 => exact absurd h run_throw_ok
  case h_7 => exact absurd h run_throw_ok

/-- A list of values is written in parentheses, of which only the closing one is still to be taken. -/
theorem readValueList_retells : Retells readValueList id := by
  intro ts rest s h hts
  unfold readValueList at h
  simp only [run_bind_ok, run_takeMark_ok, run_pure_ok] at h
  obtain ⟨values, mid, hvalues, _, last, rfl, rfl, rfl⟩ := h
  have hlist : Retold ts (closing :: last) (joined ", " (values.map id)) :=
    commaList_retells readValue_retells hvalues hts
  rw [List.map_id] at hlist
  exact hlist.drop_closing.parenthesized

/-- An operator is written as it was read. -/
theorem symbolOperator_of_whole {t : Token} (ht : t.Whole) (hkind : t.kind = .operator) :
    (symbolOperator t.text).text = t.text := by
  obtain ⟨c, body, htext, hstart⟩ := ht
  rw [hkind] at hstart
  rw [htext]
  generalize hlength : body.length = n at hstart
  have hstarts := starts_of_start hstart
  cases hstarts with
  | @long d others hbody hlong =>
    subst hbody
    obtain rfl := List.length_eq_zero_iff.mp (Nat.succ.inj hlength)
    simp only [isLongOperator, Bool.or_eq_true, Bool.and_eq_true, beq_iff_eq] at hlong
    rcases hlong with ⟨rfl, (rfl | rfl) | rfl⟩ | ⟨rfl, rfl⟩ <;> rfl
  | operator hc hnone =>
    obtain rfl := List.length_eq_zero_iff.mp hlength
    rcases hc with rfl | rfl | rfl <;> rfl

end Values

end Soql.Query
