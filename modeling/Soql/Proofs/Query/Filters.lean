import Soql.Proofs.Query.Items

namespace Soql.Query

open Text Token

variable {κ : Type} {inside : Inside κ} {text : κ → String} {clear : κ → Bool} {legible : κ → Prop}

def readTest (inside : Inside κ) (field : String) : Reader (Leaf κ) := do
  let t ← take
  if t.kind == .operator then
    return .compare ⟨field, symbolOperator t.text, ← readValue⟩
  else if t.upper == "LIKE" then return .compare ⟨field, .like, ← readValue⟩
  else if t.upper == "IN" then readMembership inside field false
  else if t.upper == "NOT" then
    takeWord "IN"
    readMembership inside field true
  else if t.upper == "INCLUDES" || t.upper == "EXCLUDES" then
    takeMark "("
    let operator := if t.upper == "INCLUDES" then Operator.includes else .excludes
    return .compare ⟨field, operator, ← readValueList⟩
  else if t.upper == "IS" then throw .nullTest
  else throw (.expectedOperator field t.text)

theorem readLeaf_eq : readLeaf inside = (do
    let field ← readExpression
    readTest inside field) :=
  rfl

theorem valueFits_of_value {op : Operator} {v : String} (h : isSymbol op = true ∨ op = .like) :
    ValueFits op v ↔ IsValue v := by
  rcases h with h | rfl
  · cases op <;> first | rfl | cases h
  · rfl

def Leaf.Valued {κ : Type} : Leaf κ → Prop
  | .compare c => ValueFits c.operator c.value
  | .semiJoin _ => True

theorem readMembership_yields (hin : Rereadable inside text clear legible) (field : String)
    (negated : Bool) : Yields (readMembership inside field negated) fun l => l.field = field ∧ Leaf.Valued l ∧
      (ConditionOn field → l.isClear clear = true → l.Legible legible) := by
  intro ts rest l h hts
  unfold readMembership at h
  simp only [run_bind_ok, run_takeMark_ok, run_atWord_ok] at h
  obtain ⟨_, mid, rfl, here, _, ⟨hhere, rfl⟩, h⟩ := h
  split at h
  · simp only [run_bind_ok, run_pure_ok] at h
    obtain ⟨q, _, hq, rfl, rfl⟩ := h
    obtain ⟨hlegible, hrest⟩ := hin.semiJoin hq hts.tail
    refine ⟨⟨rfl, trivial, ?_⟩, hrest⟩
    intro hfield hclear
    simp only [Leaf.isClear, Bool.and_eq_true] at hclear
    exact ⟨hfield, hlegible hclear.2⟩
  · rename_i hnot
    simp only [run_bind_ok, run_pure_ok] at h
    obtain ⟨v, _, hv, rfl, rfl⟩ := h
    obtain ⟨hrest, t, after, rfl, hlist⟩ := readValueList_sound hv hts.tail
    -- Otherwise a query would have been read here, and no list.
    have hfirst : t.upper ≠ "SELECT" := by
      intro hupper
      apply hnot
      rw [← hhere]
      simp [Token.isWord, hupper]
    have hfits : ValueFits (if negated then .notIn else .isIn) v := by
      cases negated with
      | false => exact ⟨t.upper, hfirst, hlist⟩
      | true => exact ⟨t.upper, hfirst, hlist⟩
    exact ⟨⟨rfl, hfits, fun hfield _ => ⟨hfield, hfits⟩⟩, hrest⟩

theorem readTest_yields (hin : Rereadable inside text clear legible) (field : String) :
    Yields (readTest inside field) fun l => l.field = field ∧ Leaf.Valued l ∧
      (ConditionOn field → l.isClear clear = true → l.Legible legible) := by
  intro ts rest l h hts
  unfold readTest at h
  simp only [run_bind_ok, run_take_ok] at h
  obtain ⟨t, mid, rfl, h⟩ := h
  have hmid := hts.tail
  -- The word after the field decides in which of five ways the test goes on.
  split at h
  · simp only [run_bind_ok, run_pure_ok] at h
    obtain ⟨v, _, hv, rfl, rfl⟩ := h
    obtain ⟨u, rfl, hvalue, -⟩ := readValue_sound hv hmid
    have hfits := (valueFits_of_value (Or.inl (isSymbol_symbolOperator t.text))).mpr hvalue
    exact ⟨⟨rfl, hfits, fun hfield _ => ⟨hfield, hfits⟩⟩, hmid.tail⟩
  split at h
  · simp only [run_bind_ok, run_pure_ok] at h
    obtain ⟨v, _, hv, rfl, rfl⟩ := h
    obtain ⟨u, rfl, hvalue, -⟩ := readValue_sound hv hmid
    exact ⟨⟨rfl, hvalue, fun hfield _ => ⟨hfield, hvalue⟩⟩, hmid.tail⟩
  split at h
  · exact readMembership_yields hin field false h hmid
  split at h
  · simp only [run_bind_ok, run_takeWord_ok] at h
    obtain ⟨_, _, ⟨w, rfl, -⟩, h⟩ := h
    exact readMembership_yields hin field true h hmid.tail
  split at h
  · simp only [run_bind_ok, run_takeMark_ok, run_pure_ok] at h
    obtain ⟨_, _, rfl, v, _, hv, rfl, rfl⟩ := h
    obtain ⟨hrest, u, after, rfl, hlist⟩ := readValueList_sound hv hmid.tail
    have hfits : ValueFits (if t.upper == "INCLUDES" then .includes else .excludes) v := by
      split
      · exact ⟨u.upper, hlist⟩
      · exact ⟨u.upper, hlist⟩
    exact ⟨⟨rfl, hfits, fun hfield _ => ⟨hfield, hfits⟩⟩, hrest⟩
  split at h
  · exact absurd h run_throw_ok
  · exact absurd h run_throw_ok

/-- A condition is on something named otherwise than the word that starts a query. -/
theorem Expression.not_select {name e : String} (h : Expression name e)
    (he : namesSelect e = false) : (word name).upper ≠ "SELECT" := by
  intro hname
  have hmap : name.map Char.toUpper = "SELECT" := hname
  simp only [namesSelect, Bool.or_eq_false_iff, beq_eq_false_iff_ne] at he
  rcases h.begins with rfl | ⟨inside, rfl⟩
  · exact he.1 hmap
  · have hbegins : beginsWith ((name ++ "(" ++ inside).map Char.toUpper) "SELECT(" = true := by
      have hlist := congrArg String.toList hmap
      rw [String.toList_map] at hlist
      rw [beginsWith, List.isPrefixOf_iff_prefix, String.toList_map, String.toList_append,
        String.toList_append, List.map_append, List.map_append, hlist]
      exact ⟨inside.toList.map Char.toUpper, rfl⟩
    rw [hbegins] at he
    cases he.2

theorem readLeaf_sound (hin : Rereadable inside text clear legible) {ts rest : List Token}
    {l : Leaf κ} (h : (readLeaf inside).run ts = .ok (l, rest)) (hts : AllWhole ts)
    (hfirst : ts.head?.any (·.isWord ["NOT", "EXISTS"]) = false) :
    (l.isClear clear = true → l.Legible legible) ∧ AllWhole rest := by
  rw [readLeaf_eq, run_bind_ok] at h
  obtain ⟨field, mid, hfield, hl⟩ := h
  obtain ⟨hmid, name, after, rfl, hexpr⟩ := readExpression_sound hfield hts
  obtain ⟨⟨rfl, -, hlegible⟩, hrest⟩ := readTest_yields hin field hl hmid
  refine ⟨?_, hrest⟩
  intro hclear
  have hleft : endsEmpty l.field = false ∧ namesSelect l.field = false := by
    cases l with
    | compare c => simpa [Leaf.isClear, Leaf.field] using hclear
    | semiJoin j =>
      simp only [Leaf.isClear, Bool.and_eq_true, Bool.not_eq_true'] at hclear
      exact hclear.1
  have hname := hexpr hleft.1
  apply hlegible _ hclear
  refine ⟨name, hname, ?_⟩
  have hselect := hname.not_select hleft.2
  simp only [List.head?_cons, Option.any_some, Token.isWord] at hfirst
  simp only [List.contains_cons, List.contains_nil, Bool.or_false, Bool.or_eq_false_iff,
    beq_eq_false_iff_ne] at hfirst ⊢
  exact ⟨hfirst.1, hfirst.2, hselect⟩

/-- The first token of a condition, which begins nothing else where a condition may stand. -/
def BeginsCondition (t : Token) : Prop :=
  ["NOT", "EXISTS", "SELECT"].contains t.upper = false ∧ t.isMark "(" = false

/-- A field with its test is read again where the test is. -/
theorem condition_spelled {field tail : String} {t : Token} {ts : List Token} {l : Leaf κ}
    (hfield : ConditionOn field) (hspells : Spells tail (t :: ts)) (hnot : t.isMark "(" = false)
    (hread : Rereads (readTest inside field) (fun _ => True) (t :: ts) l) :
    Spelled BeginsCondition (readLeaf inside) (fun _ => True) (field ++ " " ++ tail) l := by
  obtain ⟨name, hexpr, hname⟩ := hfield
  obtain ⟨u, us, rfl, hleft, hexpression⟩ := hexpr.spelled
  refine ⟨word name, us ++ t :: ts, ⟨hname, rfl⟩, hleft.space hspells, ?_⟩
  intro rest hrest
  rw [readLeaf_eq, run_bind_ok]
  refine ⟨field, t :: ts ++ rest, ?_, hread rest hrest⟩
  have hfield := hexpression (t :: ts ++ rest) hnot
  simpa using hfield

theorem symbol_rereads {field v : String} {op : Operator} (hop : isSymbol op = true)
    {t : Token} (hv : Rereads readValue (fun _ => True) [t] v) :
    Rereads (readTest inside field) (fun _ => True) [⟨.operator, op.text⟩, t]
      (.compare ⟨field, op, v⟩) := by
  intro rest hrest
  unfold readTest
  simp only [run_bind_ok, run_take_ok]
  refine ⟨⟨.operator, op.text⟩, t :: rest, rfl, ?_⟩
  rw [if_pos (by rfl)]
  simp only [run_bind_ok, run_pure_ok]
  refine ⟨v, rest, hv rest trivial, ?_, rfl⟩
  rw [symbolOperator_text hop]

theorem not_operator (w : String) : ¬((word w).kind == .operator) = true :=
  Bool.false_ne_true

theorem like_rereads {field v w : String} (hw : (word w).upper = "LIKE") {t : Token}
    (hv : Rereads readValue (fun _ => True) [t] v) :
    Rereads (readTest inside field) (fun _ => True) [word w, t] (.compare ⟨field, .like, v⟩) := by
  intro rest hrest
  unfold readTest
  simp only [run_bind_ok, run_take_ok]
  refine ⟨word w, t :: rest, rfl, ?_⟩
  rw [if_neg (not_operator w), if_pos (by rw [hw]; decide)]
  simp only [run_bind_ok, run_pure_ok]
  exact ⟨v, rest, hv rest trivial, rfl, rfl⟩

def membershipText (negated : Bool) : String :=
  if negated then "NOT IN" else "IN"

inductive MembershipWords : Bool → List Token → Prop
  | isIn {w : String} (hw : (word w).upper = "IN") : MembershipWords false [word w]
  | notIn {n w : String} (hn : (word n).upper = "NOT") (hw : (word w).upper = "IN") :
    MembershipWords true [word n, word w]

theorem membership_rereads {field : String} {negated : Bool} {ws ts : List Token} {l : Leaf κ}
    (hws : MembershipWords negated ws)
    (h : Rereads (readMembership inside field negated) (fun _ => True) ts l) :
    Rereads (readTest inside field) (fun _ => True) (ws ++ ts) l := by
  intro rest hrest
  have hl := h rest hrest
  unfold readTest
  simp only [run_bind_ok, run_take_ok]
  cases hws with
  | @isIn w hw =>
    refine ⟨word w, ts ++ rest, rfl, ?_⟩
    rw [if_neg (not_operator w), if_neg (by rw [hw]; decide), if_pos (by rw [hw]; decide)]
    exact hl
  | @notIn n w hn hw =>
    refine ⟨word n, word w :: (ts ++ rest), rfl, ?_⟩
    rw [if_neg (not_operator n), if_neg (by rw [hn]; decide), if_neg (by rw [hn]; decide),
      if_pos (by rw [hn]; decide)]
    simp only [run_bind_ok, run_takeWord_ok]
    exact ⟨(), _, ⟨_, rfl, hw⟩, hl⟩

theorem valueList_rereads {field first v : String} {negated : Bool} (hfirst : first ≠ "SELECT")
    {t : Token} {ts : List Token} (ht : t.upper = first)
    (h : Rereads readValueList (fun _ => True) (t :: ts) v) :
    Rereads (readMembership inside field negated) (fun _ => True) (opening :: t :: ts)
      (.compare ⟨field, if negated then .notIn else .isIn, v⟩) := by
  intro rest hrest
  unfold readMembership
  simp only [run_bind_ok, run_takeMark_ok, run_atWord_ok]
  refine ⟨(), t :: ts ++ rest, rfl, false, _, ⟨?_, rfl⟩, ?_⟩
  · simp [Token.isWord, ht, hfirst]
  · simp only [Bool.false_eq_true, if_false, run_bind_ok, run_pure_ok]
    exact ⟨v, rest, h rest hrest, rfl, rfl⟩

theorem semiJoin_rereads {field : String} {negated : Bool} {q : κ} {ts : List Token}
    (h : ∀ rest, inside.semiJoin.run (word "SELECT" :: ts ++ closing :: rest) = .ok (q, rest)) :
    Rereads (readMembership inside field negated) (fun _ => True)
      (opening :: word "SELECT" :: ts ++ [closing]) (.semiJoin ⟨field, q, negated⟩) := by
  intro rest hrest
  unfold readMembership
  simp only [run_bind_ok, run_takeMark_ok, run_atWord_ok]
  refine ⟨(), word "SELECT" :: ts ++ closing :: rest, by simp [opening], true, _, ⟨?_, rfl⟩, ?_⟩
  · simp [isWord_reserved (w := "SELECT") (by decide)]
  · simp only [if_true, run_bind_ok, run_pure_ok]
    exact ⟨q, rest, h rest, rfl, rfl⟩

theorem multiple_rereads {field v w : String} {op : Operator} (hop : op = .includes ∨ op = .excludes)
    (hw : (word w).upper = op.text) {ts : List Token}
    (h : Rereads readValueList (fun _ => True) ts v) :
    Rereads (readTest inside field) (fun _ => True) (word w :: opening :: ts)
      (.compare ⟨field, op, v⟩) := by
  intro rest hrest
  have hv := h rest hrest
  unfold readTest
  simp only [run_bind_ok, run_take_ok]
  refine ⟨word w, opening :: (ts ++ rest), rfl, ?_⟩
  have hupper : (word w).upper = "INCLUDES" ∨ (word w).upper = "EXCLUDES" := by
    rcases hop with rfl | rfl
    · exact Or.inl hw
    · exact Or.inr hw
  have hothers : (word w).upper ≠ "LIKE" ∧ (word w).upper ≠ "IN" ∧ (word w).upper ≠ "NOT" := by
    rcases hupper with h | h <;> rw [h] <;> decide
  rw [if_neg (not_operator w), if_neg (by simpa using hothers.1), if_neg (by simpa using hothers.2.1),
    if_neg (by simpa using hothers.2.2), if_pos (by simpa using hupper)]
  simp only [run_bind_ok, run_takeMark_ok, run_pure_ok]
  refine ⟨(), _, rfl, v, rest, hv, ?_, rfl⟩
  rcases hop with rfl | rfl <;> rw [hw] <;> rfl

/-- The words of a membership test are tokens in any letter case. -/
theorem spells_membership {negated : Bool} {o : String}
    (ho : o.map Char.toUpper = membershipText negated) :
    ∃ ws, MembershipWords negated ws ∧ Spells o ws := by
  cases negated with
  | false => exact ⟨[word o], .isIn ho, (whole_of_upper (by decide) ho).spells⟩
  | true =>
    have hlist : o.toList.map Char.toUpper = "NOT".toList ++ ' ' :: "IN".toList := by
      rw [← String.toList_map, ho]
      rfl
    -- The space stands where it stands in capitals.
    obtain ⟨n, rest, hparts, hn, hrest⟩ := List.map_eq_append_iff.mp hlist
    obtain ⟨c, w, rfl, hc, hw⟩ := List.map_eq_cons_iff.mp hrest
    obtain rfl := eq_of_toUpper hc (by decide)
    have hnot : (word (.ofList n)).upper = "NOT" := upper_word (by simpa using hn)
    have hin : (word (.ofList w)).upper = "IN" := upper_word (by simpa using hw)
    have htext : o = .ofList n ++ " " ++ .ofList w := by
      apply String.toList_injective
      simp [hparts]
    refine ⟨_, .notIn hnot hin, ?_⟩
    rw [htext]
    exact (whole_of_upper (by decide) hnot).spells.space (whole_of_upper (by decide) hin).spells

/-- A test of membership is read after its field. -/
theorem membership_spelled (negated : Bool) {field o tail : String} {ts : List Token} {l : Leaf κ}
    (hfield : ConditionOn field) (ho : o.map Char.toUpper = membershipText negated)
    (hspells : Spells tail ts)
    (hread : Rereads (readMembership inside field negated) (fun _ => True) ts l) :
    Spelled BeginsCondition (readLeaf inside) (fun _ => True)
      (field ++ " " ++ (o ++ " " ++ tail)) l := by
  obtain ⟨ws, hws, hwords⟩ := spells_membership ho
  have hall := hwords.space hspells
  have htest := membership_rereads hws hread
  cases hws with
  | isIn hw => exact condition_spelled hfield hall rfl htest
  | notIn hn hw => exact condition_spelled hfield hall rfl htest

def ValueReads : Operator → String → String → Prop
  | .isIn, s, v | .notIn, s, v => ∃ t ts, t.upper ≠ "SELECT" ∧ Spells s (opening :: t :: ts) ∧
    ∀ stop, Rereads readValueList stop (t :: ts) v
  | .includes, s, v | .excludes, s, v => ∃ ts, Spells s (opening :: ts) ∧
    ∀ stop, Rereads readValueList stop ts v
  | _, s, v => ∃ t : Token, t.Whole ∧ t.text = s ∧ ∀ stop, Rereads readValue stop [t] v

theorem valueReads_of_value {op : Operator} {s v : String} (h : isSymbol op = true ∨ op = .like) :
    ValueReads op s v ↔ ∃ t : Token, t.Whole ∧ t.text = s ∧ ∀ stop, Rereads readValue stop [t] v := by
  rcases h with h | rfl
  · cases op <;> first | rfl | cases h
  · rfl

theorem valueReads_of_fits {op : Operator} {v : String} (h : ValueFits op v) : ValueReads op v v := by
  cases op with
  | isIn | notIn =>
    obtain ⟨first, hfirst, t, ts, rfl, hlist⟩ := h
    exact ⟨t, ts, hfirst, hlist⟩
  | includes | excludes =>
    obtain ⟨first, t, ts, rfl, hlist⟩ := h
    exact ⟨t :: ts, hlist⟩
  | _ => exact h

/-- What is read after an operator as a value is one. -/
theorem valueFits_of_reads {op : Operator} {s v : String} (h : ValueReads op s v) : ValueFits op v := by
  have hlist {ts : List Token} (hspells : Spells s (opening :: ts))
      (hread : ∀ stop, Rereads readValueList stop ts v) :
      ∃ t after, ts = t :: after ∧ IsValueList t.upper v := by
    have hwhole : AllWhole (opening :: ts) := whole_of_scan (hspells.writes.lexes 0)
    have hrun := hread (fun _ => True) [] trivial
    rw [List.append_nil] at hrun
    exact (readValueList_sound hrun hwhole.tail).2
  cases op with
  | isIn | notIn =>
    obtain ⟨t, ts, hfirst, hspells, hread⟩ := h
    obtain ⟨_, _, ⟨⟩, hvalues⟩ := hlist hspells hread
    exact ⟨_, hfirst, hvalues⟩
  | includes | excludes =>
    obtain ⟨ts, hspells, hread⟩ := h
    obtain ⟨t, after, -, hvalues⟩ := hlist hspells hread
    exact ⟨_, hvalues⟩
  | _ =>
    obtain ⟨t, ht, -, hread⟩ := h
    have hrun : readValue.run ([t] ++ []) = .ok (v, []) := hread (fun _ => True) [] trivial
    obtain ⟨_, -, hvalue, -⟩ := readValue_sound hrun (AllWhole.cons ht AllWhole.nil)
    exact hvalue

/-- The text of a comparison, its operator in any letter case, is read as the comparison. -/
theorem compare_spelled {field o s v : String} {op : Operator} (hfield : ConditionOn field)
    (ho : o.map Char.toUpper = op.text) (hv : ValueReads op s v) :
    Spelled BeginsCondition (readLeaf inside) (fun _ => True) (field ++ " " ++ (o ++ " " ++ s))
      (.compare ⟨field, op, v⟩) := by
  by_cases hop : isSymbol op = true
  · obtain rfl : o = op.text := eq_of_capitals ho (by cases op <;> first | decide | cases hop)
    obtain ⟨t, ht, rfl, hread⟩ := (valueReads_of_value (Or.inl hop)).mp hv
    exact condition_spelled hfield ((whole_symbol hop).spells.space ht.spells) rfl
      (symbol_rereads hop (hread _))
  cases op with
  | like =>
    obtain ⟨t, ht, rfl, hread⟩ := hv
    have hword : (word o).Whole := whole_of_upper (by decide) ho
    exact condition_spelled hfield (hword.spells.space ht.spells) rfl (like_rereads ho (hread _))
  | isIn =>
    obtain ⟨t, ts, hfirst, hspells, hread⟩ := hv
    exact membership_spelled false hfield ho hspells
      (valueList_rereads hfirst rfl (hread _))
  | notIn =>
    obtain ⟨t, ts, hfirst, hspells, hread⟩ := hv
    exact membership_spelled true hfield ho hspells
      (valueList_rereads hfirst rfl (hread _))
  | includes =>
    obtain ⟨ts, hspells, hread⟩ := hv
    have hword : (word o).Whole := whole_of_upper (by decide) ho
    exact condition_spelled hfield (hword.spells.space hspells) rfl
      (multiple_rereads (Or.inl rfl) ho (hread _))
  | excludes =>
    obtain ⟨ts, hspells, hread⟩ := hv
    have hword : (word o).Whole := whole_of_upper (by decide) ho
    exact condition_spelled hfield (hword.spells.space hspells) rfl
      (multiple_rereads (Or.inr rfl) ho (hread _))
  | _ => exact absurd rfl hop

theorem operator_capitals (op : Operator) : op.text.map Char.toUpper = op.text := by
  apply String.toList_injective
  rw [String.toList_map]
  cases op <;> decide

/-- A condition is read again from its text. -/
theorem leaf_spelled (hin : Rereadable inside text clear legible) {l : Leaf κ}
    (h : l.Legible legible) :
    Spelled BeginsCondition (readLeaf inside) (fun _ => True) (l.render text) l := by
  cases l with
  | compare c =>
    have hc : Spelled BeginsCondition (readLeaf inside) _ _ _ :=
      compare_spelled h.1 (operator_capitals c.operator) (valueReads_of_fits h.2)
    simpa [Leaf.render, String.append_assoc] using hc
  | semiJoin j =>
    obtain ⟨field, q, negated⟩ := j
    obtain ⟨hfield, hq⟩ := h
    obtain ⟨ts, hspells, hread⟩ := hin.spelled q hq
    have hclosed : Spells ("(" ++ (text q ++ ")")) (opening :: word "SELECT" :: ts ++ [closing]) :=
      hspells.writes.closed.after_opening
    have hwords : (membershipText negated).map Char.toUpper = membershipText negated := by
      cases negated with
      | false => exact operator_capitals .isIn
      | true => exact operator_capitals .notIn
    have hj := membership_spelled _ hfield hwords hclosed (semiJoin_rereads fun rest => (hread rest).2)
    have htext : (Leaf.semiJoin ⟨field, q, negated⟩).render text =
        field ++ " " ++ (membershipText negated ++ " " ++ ("(" ++ (text q ++ ")"))) := by
      apply String.toList_injective
      cases negated <;> simp [Leaf.render, membershipText]
    rw [htext]
    exact hj

def AllClear (clear : κ → Bool) (f : Filter κ) : Prop :=
  ∀ l ∈ f.leaves, l.isClear clear = true

theorem leavesOfAll_eq (fs : List (Filter κ)) : Filter.leavesOfAll fs = fs.flatMap Filter.leaves := by
  induction fs with
  | nil => rfl
  | cons f fs ih => rw [Filter.leavesOfAll, List.flatMap_cons, ih]

theorem combined_legible {c : Connective} {fs : List (Filter κ)} (hne : fs ≠ [])
    (h : ∀ f ∈ fs, AllClear clear f → f.Legible legible) :
    AllClear clear (combined c fs) → (combined c fs).Legible legible := by
  match fs, hne, h with
  | [f], _, h => exact h f (by simp)
  | f :: g :: others, _, h =>
    intro hclear
    apply Filter.Legible.combine
    intro operand hmem
    apply h operand hmem
    intro l hl
    apply hclear
    change l ∈ Filter.leavesOfAll (f :: g :: others)
    rw [leavesOfAll_eq]
    exact List.mem_flatMap.mpr ⟨operand, hmem, hl⟩

structure Composes (inside : Inside κ) (P : Filter κ → Prop) : Prop where
  leaf : ∀ ⦃ts rest : List Token⦄ ⦃l : Leaf κ⦄, (readLeaf inside).run ts = .ok (l, rest) → AllWhole ts →
    ts.head?.any (·.isWord ["NOT", "EXISTS"]) = false → P (.leaf l) ∧ AllWhole rest
  combined : ∀ (c : Connective) {fs : List (Filter κ)}, fs ≠ [] → (∀ f ∈ fs, P f) → P (combined c fs)
  negation : ∀ {f : Filter κ}, P f → P (.negation f)

section Composes

variable {P : Filter κ → Prop} (hP : Composes inside P)

include hP

theorem readCombined_yields {c : Connective} {operand : Reader (Filter κ)} (h : Yields operand P) :
    Yields (readCombined c operand) P := by
  intro ts rest f hrun hts
  unfold readCombined at hrun
  simp only [run_bind_ok, run_get_ok, run_pure_ok] at hrun
  obtain ⟨_, _, ⟨rfl, rfl⟩, fs, _, hfs, rfl, rfl⟩ := hrun
  obtain ⟨⟨hne, hall⟩, hrest⟩ := separated_yields h _ hfs hts
  exact ⟨hP.combined c hne hall, hrest⟩

theorem readAlternatives_yields {operand : Reader (Filter κ)} (h : Yields operand P) :
    Yields (readAlternatives operand) P :=
  readCombined_yields hP (readCombined_yields hP h)

/-- By induction on the nesting that the fuel bounds. -/
theorem readOperand_yields (fuel : Nat) : Yields (readOperand inside fuel) P := by
  induction fuel with
  | zero =>
    intro ts rest f h
    exact absurd h run_throw_ok
  | succ fuel ih =>
    intro ts rest f h hts
    rw [readOperand] at h
    simp only [run_bind_ok, run_atWord_ok] at h
    obtain ⟨not?, _, ⟨hnot, rfl⟩, h⟩ := h
    split at h
    -- a negation
    · simp only [run_bind_ok, run_take_ok, run_pure_ok] at h
      obtain ⟨t, _, rfl, operand, _, hoperand, rfl, rfl⟩ := h
      obtain ⟨hfilter, hrest⟩ := ih hoperand hts.tail
      exact ⟨hP.negation hfilter, hrest⟩
    · rename_i hnot'
      simp only [run_bind_ok, run_atMark_ok] at h
      obtain ⟨open?, _, ⟨-, rfl⟩, h⟩ := h
      split at h
      -- a filter in parentheses
      · simp only [run_bind_ok, run_get_ok, throw_bind, run_bar_ok, run_take_ok, run_takeMark_ok,
          run_pure_ok] at h
        obtain ⟨_, _, ⟨rfl, rfl⟩, -, t, _, rfl, g, _, hg, _, _, rfl, rfl, rfl⟩ := h
        obtain ⟨hfilter, hmid⟩ := readAlternatives_yields hP ih hg hts.tail
        exact ⟨hfilter, hmid.tail⟩
      -- a single condition, which no word for conditions begins
      · simp only [run_bind_ok, run_atWord_ok] at h
        obtain ⟨exists?, _, ⟨hexists, rfl⟩, h⟩ := h
        rw [run_bar_ok] at h
        obtain ⟨hexists', h⟩ := h
        simp only [run_bind_ok, run_pure_ok] at h
        obtain ⟨l, _, hl, rfl, rfl⟩ := h
        apply hP.leaf hl hts
        subst hnot hexists
        cases ts with
        | nil => rfl
        | cons t ts => simp_all [Token.isWord]

theorem readFilter_yields : Yields (readFilter inside) P := by
  intro ts rest f h hts
  unfold readFilter at h
  simp only [run_bind_ok, run_get_ok] at h
  obtain ⟨_, _, ⟨rfl, rfl⟩, h⟩ := h
  exact readAlternatives_yields hP (readOperand_yields hP _) h hts

end Composes

/-- What is read as a filter is read again. -/
theorem composes_legible (hin : Rereadable inside text clear legible) :
    Composes inside fun f => AllClear clear f → f.Legible legible where
  leaf := by
    intro ts rest l h hts hfirst
    obtain ⟨hlegible, hrest⟩ := readLeaf_sound hin h hts hfirst
    refine ⟨?_, hrest⟩
    intro hclear
    exact Filter.Legible.leaf (hlegible (hclear l (by simp [Filter.leaves])))
  combined := fun _ _ hne hall => combined_legible hne hall
  negation := fun hfilter hclear => Filter.Legible.negation (hfilter hclear)

def NoConnective (ts : List Token) : Prop :=
  ts.head?.any (·.isWord ["AND"]) = false ∧ ts.head?.any (·.isWord ["OR"]) = false

theorem reserved_connective (c : Connective) : isReserved c.text = true := by
  cases c <;> decide

/-- Operands in a row are combined. -/
theorem readCombined_rereads (c : Connective) {operand : Reader (Filter κ)}
    {stop : List Token → Prop} {ts : List Token} {fs : List (Filter κ)}
    (h : Row (·.isWord [c.text]) operand stop ts fs) :
    Rereads (readCombined c operand)
      (fun ts => stop ts ∧ ts.head?.any (·.isWord [c.text]) = false) ts (combined c fs) := by
  intro rest hrest
  have hlen := h.length_le
  unfold readCombined
  simp only [run_bind_ok, run_get_ok, run_pure_ok]
  refine ⟨_, _, ⟨rfl, rfl⟩, fs, rest, ?_, rfl, rfl⟩
  apply h.rereads _ rest hrest
  simp only [List.length_append]
  omega

theorem readCombined_single (c : Connective) {operand : Reader (Filter κ)}
    {stop : List Token → Prop} {ts : List Token} {f : Filter κ} (h : Rereads operand stop ts f) :
    Rereads (readCombined c operand)
      (fun ts => stop ts ∧ ts.head?.any (·.isWord [c.text]) = false) ts f :=
  readCombined_rereads c (.single h)

/-- The word of a connective separates its operands. -/
theorem isWord_connective (c : Connective) : (word c.text).isWord [c.text] = true := by
  simp [isWord_reserved (reserved_connective c)]

/-- The stop of the conditions that hold together, before an alternative. -/
theorem before_alternative (ts : List Token) :
    True ∧ (word Connective.any.text :: ts).head?.any (·.isWord [Connective.all.text]) = false := by
  refine ⟨trivial, ?_⟩
  rw [List.head?_cons, Option.any_some, isWord_reserved (reserved_connective .any)]
  decide

/-- One operand makes a filter of its own. -/
theorem alternatives_single {operand : Reader (Filter κ)} {ts : List Token} {f : Filter κ}
    (h : Rereads operand (fun _ => True) ts f) :
    Rereads (readAlternatives operand) NoConnective ts f := by
  have hall := readCombined_single .all h
  have hany := readCombined_single .any hall
  intro rest hrest
  exact hany rest ⟨⟨trivial, hrest.1⟩, hrest.2⟩

/-- Operands with a connective between them make a combination. -/
theorem alternatives_combined {operand : Reader (Filter κ)} (c : Connective)
    {rows : List (List Token)} {f g : Filter κ} {others : List (Filter κ)}
    (h : List.Forall₂ (Rereads operand fun _ => True) rows (f :: g :: others)) :
    Rereads (readAlternatives operand) NoConnective ([word c.text].intercalate rows)
      (.combine c (f :: g :: others)) := by
  have hne : rows ≠ [] := by
    rintro rfl
    cases h
  intro rest hrest
  cases c with
  | all =>
    have hall := readCombined_rereads .all
      (row_intercalate (isWord_connective .all) (fun _ => trivial) h hne)
    have hany := readCombined_single .any hall
    exact hany rest ⟨⟨trivial, hrest.1⟩, hrest.2⟩
  | any =>
    -- Each alternative is a single condition.
    have hsingle := h.imp fun _ _ hrow => readCombined_single .all hrow
    have hany := readCombined_rereads .any
      (row_intercalate (isWord_connective .any) before_alternative hsingle hne)
    exact hany rest ⟨⟨trivial, hrest.1⟩, hrest.2⟩

theorem renderAll_eq (text : κ → String) (fs : List (Filter κ)) :
    Filter.renderAll text fs = fs.map (Filter.render text true) := by
  induction fs with
  | nil => rfl
  | cons f fs ih => rw [Filter.renderAll, List.map_cons, ih]

/-- The tokens of a filter where it is an operand, and where it stands by itself; the fuel that
reading takes is no more than their number. -/
structure FilterReads (inside : Inside κ) (text : κ → String) (f : Filter κ) : Prop where
  operand : ∃ t ts, t.upper ≠ "SELECT" ∧ Spells (f.render text true) (t :: ts) ∧
    ∀ fuel, ts.length < fuel → Rereads (readOperand inside fuel) (fun _ => True) (t :: ts) f
  alone : ∃ t ts, t.upper ≠ "SELECT" ∧ Spells (f.render text false) (t :: ts) ∧
    ∀ fuel, ts.length < fuel →
      Rereads (readAlternatives (readOperand inside fuel)) NoConnective (t :: ts) f

/-- Where the text of an operand does not depend on the place, it is read alone as well. -/
theorem FilterReads.of_operand {f : Filter κ} (htext : f.render text false = f.render text true)
    (h : ∃ t ts, t.upper ≠ "SELECT" ∧ Spells (f.render text true) (t :: ts) ∧
      ∀ fuel, ts.length < fuel → Rereads (readOperand inside fuel) (fun _ => True) (t :: ts) f) :
    FilterReads inside text f := by
  refine ⟨h, ?_⟩
  obtain ⟨t, ts, ht, hspells, hread⟩ := h
  exact ⟨t, ts, ht, htext ▸ hspells, fun fuel hfuel => alternatives_single (hread fuel hfuel)⟩

/-- A filter in parentheses is an operand. -/
theorem readOperand_parentheses {t : Token} {ts : List Token} {f : Filter κ} {fuel : Nat}
    (ht : t.upper ≠ "SELECT")
    (h : Rereads (readAlternatives (readOperand inside fuel)) NoConnective (t :: ts) f) :
    Rereads (readOperand inside (fuel + 1)) (fun _ => True) (opening :: t :: ts ++ [closing]) f := by
  intro rest hrest
  have hnone : NoConnective (closing :: rest) := by
    constructor <;> simp [Token.isWord]
  have hinner := h (closing :: rest) hnone
  rw [readOperand]
  simp only [run_bind_ok, run_atWord_ok]
  refine ⟨false, _, ⟨?_, rfl⟩, ?_⟩
  · simp [Token.isWord]
  · simp only [Bool.false_eq_true, if_false, run_bind_ok, run_atMark_ok]
    refine ⟨true, _, ⟨rfl, rfl⟩, ?_⟩
    simp only [if_true, run_bind_ok, run_get_ok, throw_bind, run_bar_ok, run_take_ok,
      run_takeMark_ok, run_pure_ok]
    refine ⟨_, _, ⟨rfl, rfl⟩, ?_, opening, _, rfl, f, closing :: rest, ?_, (), rest, rfl, rfl, rfl⟩
    · simp [ht]
    · simpa using hinner

/-- What is read as a condition is an operand. -/
theorem operand_of_leaf {s : String} {l : Leaf κ}
    (h : Spelled BeginsCondition (readLeaf inside) (fun _ => True) s l) :
    ∃ t ts, t.upper ≠ "SELECT" ∧ Spells s (t :: ts) ∧ ∀ fuel, ts.length < fuel →
      Rereads (readOperand inside fuel) (fun _ => True) (t :: ts) (.leaf l) := by
  obtain ⟨t, ts, hfirst, hspells, hread⟩ := h
  have hwords := hfirst.1
  simp only [List.contains_cons, List.contains_nil, Bool.or_false, Bool.or_eq_false_iff,
    beq_eq_false_iff_ne] at hwords
  refine ⟨t, ts, hwords.2.2, hspells, ?_⟩
  intro fuel hfuel rest hrest
  obtain ⟨fuel, rfl⟩ : ∃ n, fuel = n + 1 := ⟨fuel - 1, by omega⟩
  rw [readOperand]
  simp only [run_bind_ok, run_atWord_ok]
  refine ⟨false, _, ⟨?_, rfl⟩, ?_⟩
  · simp [Token.isWord, hwords.1]
  · simp only [Bool.false_eq_true, if_false, run_bind_ok, run_atMark_ok]
    refine ⟨false, _, ⟨hfirst.2, rfl⟩, ?_⟩
    simp only [Bool.false_eq_true, if_false, run_bind_ok, run_atWord_ok, run_bar_ok, run_pure_ok]
    refine ⟨false, _, ⟨?_, rfl⟩, by simp, l, rest, hread rest trivial, rfl, rfl⟩
    simp [Token.isWord, hwords.2.1]

theorem readOperand_leaf (hin : Rereadable inside text clear legible) {l : Leaf κ}
    (h : l.Legible legible) : FilterReads inside text (.leaf l) :=
  FilterReads.of_operand rfl (operand_of_leaf (leaf_spelled hin h))

/-- The text of a filter in parentheses. -/
theorem spells_parentheses {s : String} {ts : List Token} (h : Spells s ts) :
    Spells ("(" ++ s ++ ")") (opening :: (ts ++ [closing])) := by
  have hclosed := h.writes.closed.after_opening
  rwa [← String.append_assoc] at hclosed

/-- An operand after the word of negation is negated. -/
theorem readOperand_negation {w : String} (hw : (word w).upper = "NOT") {ts : List Token} {f : Filter κ}
    {fuel : Nat} (h : Rereads (readOperand inside fuel) (fun _ => True) ts f) :
    Rereads (readOperand inside (fuel + 1)) (fun _ => True) (word w :: ts) (.negation f) := by
  intro rest hrest
  rw [readOperand]
  simp only [run_bind_ok, run_atWord_ok]
  refine ⟨true, _, ⟨?_, rfl⟩, ?_⟩
  · simp [Token.isWord, hw]
  · simp only [if_true, run_bind_ok, run_take_ok, run_pure_ok]
    exact ⟨word w, _, rfl, f, rest, h rest hrest, rfl, rfl⟩

theorem reads_negation {f : Filter κ} (h : FilterReads inside text f) :
    FilterReads inside text (.negation f) := by
  apply FilterReads.of_operand rfl
  obtain ⟨t, ts, ht, hspells, hread⟩ := h.alone
  have htext : Spells ("NOT (" ++ f.render text false ++ ")")
      (word "NOT" :: opening :: (t :: ts ++ [closing])) := by
    have hnot := (spells_word (w := "NOT") (by decide)).space (spells_parentheses hspells)
    have heq : "NOT (" ++ f.render text false ++ ")" =
        "NOT" ++ " " ++ ("(" ++ f.render text false ++ ")") := by
      apply String.toList_injective
      simp
    rw [heq]
    exact hnot
  refine ⟨word "NOT", _, ?_, htext, ?_⟩
  · rw [upper_reserved] <;> decide
  · intro fuel hfuel
    obtain ⟨fuel, rfl⟩ : ∃ n, fuel = n + 2 := ⟨fuel - 2, by simp at hfuel; omega⟩
    have hoperand := readOperand_parentheses ht (hread fuel (by simp at hfuel; omega))
    exact readOperand_negation (upper_reserved (by decide)) hoperand

/-- The operands of a combination give rows of tokens, and any fuel for all of them reads each. -/
theorem operand_rows {fs : List (Filter κ)} (h : ∀ f ∈ fs, FilterReads inside text f) (w : Token) :
    ∃ rows, List.Forall₂ Spells (fs.map (Filter.render text true)) rows ∧
      ∀ fuel, ([w].intercalate rows).length ≤ fuel →
        List.Forall₂ (Rereads (readOperand inside fuel) fun _ => True) rows fs := by
  induction fs with
  | nil => exact ⟨[], List.Forall₂.nil, fun fuel _ => List.Forall₂.nil⟩
  | cons f fs ih =>
    obtain ⟨t, ts, ht, hspells, hread⟩ := (h f (by simp)).operand
    obtain ⟨rows, hrows, hreads⟩ := ih (fun g hg => h g (by simp [hg]))
    refine ⟨(t :: ts) :: rows, List.Forall₂.cons hspells hrows, ?_⟩
    intro fuel hfuel
    have hlen : ts.length < fuel ∧ ([w].intercalate rows).length ≤ fuel := by
      cases rows with
      | nil =>
        simp only [List.intercalate_singleton, List.length_cons] at hfuel
        simp
        omega
      | cons row rows =>
        rw [List.intercalate_cons_cons] at hfuel
        simp only [List.length_append, List.length_cons] at hfuel ⊢
        omega
    exact List.Forall₂.cons (hread fuel hlen.1) (hreads fuel hlen.2)

/-- A combination is read again where it stands by itself. -/
theorem combine_alone {c : Connective} {f g : Filter κ} {others : List (Filter κ)}
    (h : ∀ operand ∈ f :: g :: others, FilterReads inside text operand) :
    ∃ t ts, t.upper ≠ "SELECT" ∧
      Spells ((Filter.combine c (f :: g :: others)).render text false) (t :: ts) ∧
      ∀ fuel, ts.length < fuel → Rereads (readAlternatives (readOperand inside fuel)) NoConnective
        (t :: ts) (.combine c (f :: g :: others)) := by
  obtain ⟨t, ts, ht, hspells, hread⟩ := (h f (by simp)).operand
  obtain ⟨rows, hrows, hreads⟩ :=
    operand_rows (fun k hk => h k (List.mem_cons_of_mem _ hk)) (word c.text)
  have hident : isIdent c.text = true := by cases c <;> decide
  have hall := spells_joined (by simp) (List.Forall₂.cons hspells hrows) (writes_joined_word hident)
  rw [List.intercalate_cons_cons_left] at hall
  refine ⟨t, [word c.text].intercalate (ts :: rows), ht, ?_, ?_⟩
  · simpa [Filter.render, renderAll_eq] using hall
  · intro fuel hfuel
    have hlen : ts.length < fuel ∧ ([word c.text].intercalate rows).length ≤ fuel := by
      cases rows with
      | nil => cases hrows
      | cons row rows =>
        rw [List.intercalate_cons_cons] at hfuel
        simp only [List.length_append] at hfuel
        omega
    have hrow := alternatives_combined c (List.Forall₂.cons (hread fuel hlen.1) (hreads fuel hlen.2))
    rwa [List.intercalate_cons_cons_left] at hrow

theorem reads_combine {c : Connective} {f g : Filter κ} {others : List (Filter κ)}
    (h : ∀ operand ∈ f :: g :: others, FilterReads inside text operand) :
    FilterReads inside text (.combine c (f :: g :: others)) := by
  have halone := combine_alone (c := c) h
  refine ⟨?_, halone⟩
  obtain ⟨t, ts, ht, hspells, hread⟩ := halone
  refine ⟨opening, t :: ts ++ [closing], by simp, spells_parentheses hspells, ?_⟩
  intro fuel hfuel
  obtain ⟨fuel, rfl⟩ : ∃ n, fuel = n + 1 := ⟨fuel - 1, by omega⟩
  exact readOperand_parentheses ht (hread fuel (by simp at hfuel; omega))

/-- A filter is read again from its text, as an operand and by itself. -/
theorem filter_reads (hin : Rereadable inside text clear legible) {f : Filter κ}
    (h : f.Legible legible) : FilterReads inside text f := by
  induction h with
  | leaf h => exact readOperand_leaf hin h
  | combine h ih => exact reads_combine ih
  | negation h ih => exact reads_negation ih

theorem filter_spelled (hin : Rereadable inside text clear legible) {f : Filter κ}
    (h : f.Legible legible) :
    Spelled anyFirst (readFilter inside) NoConnective (f.render text false) f := by
  obtain ⟨t, ts, -, hspells, hread⟩ := (filter_reads hin h).alone
  refine ⟨t, ts, trivial, hspells, ?_⟩
  intro rest hrest
  unfold readFilter
  simp only [run_bind_ok, run_get_ok]
  refine ⟨_, _, ⟨rfl, rfl⟩, hread _ ?_ rest hrest⟩
  simp only [List.cons_append, List.length_cons, List.length_append]
  omega

end Soql.Query
