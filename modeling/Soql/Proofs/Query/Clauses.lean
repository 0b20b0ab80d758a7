import Soql.Proofs.Query.Filters

namespace Soql.Query

open Text Token

variable {α : Type}

/-- What is kept as text ends before a token that ends the clause outside all parentheses, or at the
end of all tokens. -/
theorem clauseTokens_sound {depth : Nat} {ts taken rest : List Token}
    (h : clauseTokens depth ts = (taken, rest)) :
    ts = taken ++ rest ∧ ∃ out, walk endsClause depth taken = some out ∧ (out = 0 ∨ rest = []) := by
  induction ts generalizing depth taken rest with
  | nil =>
    cases h
    exact ⟨rfl, depth, rfl, Or.inr rfl⟩
  | cons t ts ih =>
    rw [clauseTokens] at h
    by_cases hend : depth = 0 ∧ endsClause t = true
    · rw [if_pos (by simpa [endsClause] using hend)] at h
      cases h
      exact ⟨rfl, depth, rfl, Or.inl hend.1⟩
    · rw [if_neg (by simpa [endsClause] using hend)] at h
      cases hrec : clauseTokens (depthPast depth t) ts with
      | mk taken' rest' =>
        obtain ⟨rfl, out, hwalk, hout⟩ := ih hrec
        simp only [depthPast] at hrec
        simp only [hrec] at h
        cases h
        exact ⟨rfl, out, walk_cons.mpr ⟨hend, hwalk⟩, hout⟩

theorem clauseTokens_row {depth out : Nat} {ts rest : List Token}
    (h : walk endsClause depth ts = some out)
    (hrest : rest = [] ∨ out = 0 ∧ rest.head?.any endsClause = true) :
    clauseTokens depth (ts ++ rest) = (ts, rest) := by
  induction ts generalizing depth with
  | nil =>
    -- Nothing is left to take: the clause ends here because of what follows.
    obtain rfl : depth = out := by simpa [walk] using h
    cases rest with
    | nil => rfl
    | cons t rest =>
      obtain ⟨rfl, ht⟩ : depth = 0 ∧ endsClause t = true := by simpa using hrest
      rw [List.nil_append, clauseTokens, if_pos (by simpa [endsClause] using ht)]
  | cons t ts ih =>
    rw [walk_cons] at h
    have hrec := ih h.2
    rw [List.cons_append, clauseTokens, if_neg (by simpa [endsClause] using h.1)]
    simp only [depthPast] at hrec
    simp only [hrec]

theorem run_readHaving_ok {ts rest : List Token} {text : String} : readHaving.run ts = .ok (text, rest) ↔
    ∃ taken, taken ≠ [] ∧ clauseTokens 0 ts = (taken, rest) ∧ text = rowText taken := by
  unfold readHaving
  simp only [run_bind_ok, run_get_ok]
  constructor
  · rintro ⟨_, _, ⟨rfl, rfl⟩, h⟩
    cases hcut : clauseTokens 0 ts with
    | mk taken after =>
      rw [hcut] at h
      simp only [run_set_ok, throw_bind, run_bar_ok, run_pure_ok, List.isEmpty_iff] at h
      obtain ⟨_, _, rfl, hne, rfl, rfl⟩ := h
      exact ⟨taken, hne, rfl, rfl⟩
  · rintro ⟨taken, hne, hcut, rfl⟩
    refine ⟨_, _, ⟨rfl, rfl⟩, ?_⟩
    rw [hcut]
    simp only [run_set_ok, throw_bind, run_bar_ok, run_pure_ok, List.isEmpty_iff]
    exact ⟨⟨⟩, rest, rfl, hne, trivial, rfl⟩

theorem readHaving_sound {ts rest : List Token} {text : String}
    (h : readHaving.run ts = .ok (text, rest)) (hts : AllWhole ts) :
    AllWhole rest ∧ ∃ depth, IsHaving depth text ∧ (depth = 0 ∨ rest = []) := by
  obtain ⟨taken, hne, hcut, rfl⟩ := run_readHaving_ok.mp h
  obtain ⟨rfl, out, hwalk, hout⟩ := clauseTokens_sound hcut
  refine ⟨fun t ht => hts t (List.mem_append_right _ ht), out, ?_, hout⟩
  obtain ⟨t, others, rfl⟩ := List.exists_cons_of_ne_nil hne
  exact ⟨t, others, fun u hu => hts u (List.mem_append_left _ hu), rfl, hwalk⟩

theorem having_spelled {depth : Nat} {text : String} (h : IsHaving depth text) :
    Spelled anyFirst readHaving
      (fun rest => rest = [] ∨ depth = 0 ∧ rest.head?.any endsClause = true) text text := by
  obtain ⟨t, ts, hall, rfl, hwalk⟩ := h
  refine ⟨t, ts, trivial, ⟨writes_rowText hall, ends_rowText (by simp) hall⟩, ?_⟩
  intro rest hrest
  exact run_readHaving_ok.mpr ⟨_, by simp, clauseTokens_row hwalk hrest, rfl⟩

def readDirection : Reader Direction := do
  let ascending ← atWord ["ASC"]
  let descending ← atWord ["DESC"]
  if ascending then
    let _ ← take
    return .ascending
  else if descending then
    let _ ← take
    return .descending
  else return .ascending

def readNulls : Reader (Option NullsPlace) := do
  if ← atWord ["NULLS"] then
    let _ ← take
    if ← atWord ["FIRST"] then
      let _ ← take
      return some .first
    else if ← atWord ["LAST"] then
      let _ ← take
      return some .last
    else throw .nullsWithoutPlace
  else return none

theorem ite_bind {β : Type} {c : Prop} [Decidable c] (r s : Reader α) (f : α → Reader β) :
    (if c then r else s) >>= f = if c then r >>= f else s >>= f := by
  split <;> rfl

theorem readOrderKey_eq : readOrderKey = (do
    let field ← readExpression
    let direction ← readDirection
    return ⟨field, direction, ← readNulls⟩) := by
  unfold readOrderKey readDirection readNulls
  simp only [bind_assoc, ite_bind, pure_bind, throw_bind]

theorem readDirection_sound {ts rest : List Token} {d : Direction}
    (h : readDirection.run ts = .ok (d, rest)) (hts : AllWhole ts) : AllWhole rest := by
  unfold readDirection at h
  simp only [run_bind_ok, run_atWord_ok] at h
  obtain ⟨ascending, _, ⟨-, rfl⟩, descending, _, ⟨-, rfl⟩, h⟩ := h
  split at h
  · simp only [run_bind_ok, run_take_ok, run_pure_ok] at h
    obtain ⟨t, _, rfl, -, rfl⟩ := h
    exact hts.tail
  split at h
  · simp only [run_bind_ok, run_take_ok, run_pure_ok] at h
    obtain ⟨t, _, rfl, -, rfl⟩ := h
    exact hts.tail
  · obtain ⟨-, rfl⟩ := run_pure_ok.mp h
    exact hts

theorem readNulls_sound {ts rest : List Token} {nulls : Option NullsPlace}
    (h : readNulls.run ts = .ok (nulls, rest)) (hts : AllWhole ts) : AllWhole rest := by
  unfold readNulls at h
  simp only [run_bind_ok, run_atWord_ok] at h
  obtain ⟨here, _, ⟨-, rfl⟩, h⟩ := h
  split at h
  · simp only [run_bind_ok, run_take_ok, run_atWord_ok] at h
    obtain ⟨t, _, rfl, first, _, ⟨-, rfl⟩, h⟩ := h
    split at h
    · simp only [run_bind_ok, run_take_ok, run_pure_ok] at h
      obtain ⟨u, _, rfl, -, rfl⟩ := h
      exact hts.tail.tail
    · simp only [run_bind_ok, run_atWord_ok] at h
      obtain ⟨last, _, ⟨-, rfl⟩, h⟩ := h
      split at h
      · simp only [run_bind_ok, run_take_ok, run_pure_ok] at h
        obtain ⟨u, _, rfl, -, rfl⟩ := h
        exact hts.tail.tail
      · exact absurd h run_throw_ok
  · obtain ⟨-, rfl⟩ := run_pure_ok.mp h
    exact hts

theorem readOrderKey_yields : Yields readOrderKey fun k =>
    endsEmpty k.field = false → ∃ name, Expression name k.field := by
  intro ts rest k h hts
  rw [readOrderKey_eq] at h
  simp only [run_bind_ok, run_pure_ok] at h
  obtain ⟨field, _, hfield, d, _, hd, nulls, _, hnulls, rfl, rfl⟩ := h
  obtain ⟨hmid, name, after, -, hexpr⟩ := readExpression_sound hfield hts
  have hrest := readNulls_sound hnulls (readDirection_sound hd hmid)
  exact ⟨fun hclear => ⟨name, hexpr hclear⟩, hrest⟩

theorem reserved_direction (d : Direction) : isReserved d.text = true := by
  cases d <;> decide

theorem readDirection_rereads (d : Direction) (stop : List Token → Prop) :
    Rereads readDirection stop [word d.text] d := by
  intro rest hrest
  unfold readDirection
  simp only [run_bind_ok, run_atWord_ok]
  cases d with
  | ascending =>
    refine ⟨true, _, ⟨?_, rfl⟩, false, _, ⟨?_, rfl⟩, ?_⟩
    · simp [isWord_reserved (reserved_direction .ascending)]
      decide
    · simp [isWord_reserved (reserved_direction .ascending)]
      decide
    · simp only [if_true, run_bind_ok, run_take_ok, run_pure_ok]
      exact ⟨_, rest, rfl, trivial, rfl⟩
  | descending =>
    refine ⟨false, _, ⟨?_, rfl⟩, true, _, ⟨?_, rfl⟩, ?_⟩
    · simp [isWord_reserved (reserved_direction .descending)]
      decide
    · simp [isWord_reserved (reserved_direction .descending)]
      decide
    · simp only [Bool.false_eq_true, if_false, if_true, run_bind_ok, run_take_ok, run_pure_ok]
      exact ⟨_, rest, rfl, trivial, rfl⟩

def nullsTokens : Option NullsPlace → List Token
  | some place => [word "NULLS", word place.text]
  | none => []

def NoNulls (ts : List Token) : Prop :=
  ts.head?.any (·.isWord ["NULLS"]) = false

theorem readNulls_rereads (nulls : Option NullsPlace) :
    Rereads readNulls NoNulls (nullsTokens nulls) nulls := by
  intro rest hrest
  unfold readNulls
  simp only [run_bind_ok, run_atWord_ok]
  cases nulls with
  | none => exact ⟨false, rest, ⟨hrest, rfl⟩, rfl⟩
  | some place =>
    have hnulls : (word "NULLS").isWord ["NULLS"] = true := by
      rw [isWord_reserved (by decide)]
      decide
    refine ⟨true, _, ⟨hnulls, rfl⟩, ?_⟩
    simp only [if_true, run_bind_ok, run_take_ok, run_atWord_ok]
    refine ⟨word "NULLS", _, rfl, ?_⟩
    cases place with
    | first =>
      refine ⟨true, _, ⟨?_, rfl⟩, ?_⟩
      · simp [NullsPlace.text, isWord_reserved (w := "FIRST") (by decide)]
      · simp only [if_true, run_bind_ok, run_take_ok, run_pure_ok]
        exact ⟨_, rest, rfl, trivial, rfl⟩
    | last =>
      refine ⟨false, _, ⟨?_, rfl⟩, ?_⟩
      · simp [NullsPlace.text, isWord_reserved (w := "LAST") (by decide)]
      · simp only [Bool.false_eq_true, if_false, run_bind_ok, run_atWord_ok]
        refine ⟨true, _, ⟨?_, rfl⟩, ?_⟩
        · simp [NullsPlace.text, isWord_reserved (w := "LAST") (by decide)]
        · simp only [if_true, run_bind_ok, run_take_ok, run_pure_ok]
          exact ⟨_, rest, rfl, trivial, rfl⟩

theorem spells_orderKey {k : OrderKey} {ts : List Token} (h : Spells k.field ts) :
    Spells k.render (ts ++ word k.direction.text :: nullsTokens k.nulls) := by
  have hdirection : isIdent k.direction.text = true := by cases k.direction <;> decide
  have hkey := h.space (spells_word hdirection)
  unfold OrderKey.render
  cases k.nulls with
  | none => simpa [nullsTokens] using hkey
  | some place =>
    have hplace : isIdent place.text = true := by cases place <;> decide
    have hnulls := (hkey.space (spells_word (w := "NULLS") (by decide))).space (spells_word hplace)
    simpa [nullsTokens, String.append_assoc] using hnulls

theorem orderKey_spelled {k : OrderKey} (h : ∃ name, Expression name k.field) :
    Spelled anyFirst readOrderKey NoNulls k.render k := by
  obtain ⟨name, hexpr⟩ := h
  obtain ⟨t, ts, -, hspells, hread⟩ := hexpr.spelled
  refine ⟨t, ts ++ word k.direction.text :: nullsTokens k.nulls, trivial, spells_orderKey hspells, ?_⟩
  intro rest hrest
  rw [readOrderKey_eq]
  simp only [run_bind_ok, run_pure_ok]
  refine ⟨k.field, word k.direction.text :: nullsTokens k.nulls ++ rest, ?_, k.direction, _,
    readDirection_rereads k.direction (fun _ => True) _ trivial, k.nulls, rest,
    readNulls_rereads k.nulls rest hrest, rfl, rfl⟩
  have hfield := hread (word k.direction.text :: nullsTokens k.nulls ++ rest) rfl
  simpa using hfield

/-- The words that may still follow a clause, unless a parenthesis closes or nothing is left. -/
def Follow (words : List String) (ts : List Token) : Prop :=
  ∀ t ∈ ts.head?, t = closing ∨ ∃ w ∈ words, t = word w

theorem Follow.cons {words : List String} (w : String) (ts : List Token) :
    Follow (w :: words) (word w :: ts) := by
  intro t ht
  obtain rfl : word w = t := by simpa using ht
  exact Or.inr ⟨w, by simp, rfl⟩

theorem Follow.mono {words : List String} {ts : List Token} (h : Follow words ts) (w : String) :
    Follow (w :: words) ts := by
  intro t ht
  rcases h t ht with rfl | ⟨v, hv, rfl⟩
  · exact Or.inl rfl
  · exact Or.inr ⟨v, by simp [hv], rfl⟩

/-- Words that are none of those which may follow do not follow. -/
theorem Follow.not_word {words others : List String} {ts : List Token} (h : Follow words ts)
    (hwords : (words.all fun w => isReserved w && !others.contains w) = true)
    (hclosing : others.contains ")" = false) : ts.head?.any (·.isWord others) = false := by
  cases ts with
  | nil => rfl
  | cons t ts =>
    rw [List.head?_cons, Option.any_some]
    rcases h t rfl with rfl | ⟨w, hw, rfl⟩
    · rw [Token.isWord, upper_closing]
      exact hclosing
    · have hall := List.all_eq_true.mp hwords w hw
      simp only [Bool.and_eq_true, Bool.not_eq_true'] at hall
      rw [isWord_reserved hall.1]
      exact hall.2

theorem Follow.not_mark {words : List String} {ts : List Token} (h : Follow words ts) {mark : String}
    (hm : mark ≠ ")") : ts.head?.any (·.isMark mark) = false := by
  cases ts with
  | nil => rfl
  | cons t ts =>
    rw [List.head?_cons, Option.any_some]
    rcases h t rfl with rfl | ⟨w, hw, rfl⟩
    · simp [isMark, closing, hm.symm]
    · simp [isMark, word]

/-- A clause that may be left out: its text, if there is any, is read again where one of the later
clauses follows. -/
def ClauseReads (w : String) (words : List String) (r : Reader α) (pieces : List String) (a : α) :
    Prop :=
  ∃ rows, List.Forall₂ Spells pieces rows ∧ ∀ rest, Follow words rest →
    Follow (w :: words) (rows.flatten ++ rest) ∧ r.run (rows.flatten ++ rest) = .ok (a, rest)

/-- A clause that is not there. -/
theorem optional_absent {w : String} {clause : Reader α} {ts : List Token}
    (h : ts.head?.any (·.isWord [w]) = false) : (optional w clause).run ts = .ok (none, ts) := by
  unfold optional
  simp only [run_bind_ok, run_atWord_ok]
  exact ⟨false, ts, ⟨h, rfl⟩, rfl⟩

theorem optional_present {w : String} (hw : isReserved w = true) {clause : Reader α}
    {ts rest : List Token} {a : α} (h : clause.run ts = .ok (a, rest)) :
    (optional w clause).run (word w :: ts) = .ok (some a, rest) := by
  unfold optional
  simp only [run_bind_ok, run_atWord_ok]
  refine ⟨true, _, ⟨?_, rfl⟩, ?_⟩
  · simp [isWord_reserved hw]
  · simp only [if_true, run_bind_ok, run_take_ok, run_pure_ok]
    exact ⟨word w, ts, rfl, a, rest, h, rfl, rfl⟩

theorem optional_none {w : String} {words : List String} {clause : Reader α}
    (hwords : (words.all fun v => isReserved v && !([w].contains v)) = true)
    (hclosing : [w].contains ")" = false) : ClauseReads w words (optional w clause) [] none := by
  refine ⟨[], List.Forall₂.nil, ?_⟩
  intro rest hrest
  exact ⟨hrest.mono w, optional_absent (hrest.not_word hwords hclosing)⟩

theorem optional_some {w : String} (hw : isReserved w = true) {words : List String}
    {clause : Reader α} {stop : List Token → Prop} (hstop : ∀ ts, Follow words ts → stop ts)
    {text : String} {a : α} (h : Spelled anyFirst clause stop text a) :
    ClauseReads w words (optional w clause) [w ++ " " ++ text] (some a) := by
  obtain ⟨t, ts, -, hspells, hread⟩ := h
  have htext := (spells_word (isIdent_of_isReserved hw)).space hspells
  refine ⟨[_], List.Forall₂.cons htext List.Forall₂.nil, ?_⟩
  intro rest hrest
  have hrun := optional_present hw (hread rest (hstop rest hrest))
  refine ⟨Follow.cons w _, ?_⟩
  simpa using hrun

theorem optional_sound {w : String} {clause : Reader α} {ts rest : List Token} {a : Option α}
    (h : (optional w clause).run ts = .ok (a, rest)) : (a = none ∧ ts = rest) ∨
      ∃ t mid b, t.upper = w ∧ ts = t :: mid ∧ clause.run mid = .ok (b, rest) ∧ a = some b := by
  unfold optional at h
  simp only [run_bind_ok, run_atWord_ok] at h
  obtain ⟨here, _, ⟨hhere, rfl⟩, h⟩ := h
  split at h
  case isTrue hword =>
    simp only [run_bind_ok, run_take_ok, run_pure_ok] at h
    obtain ⟨t, mid, rfl, b, _, hb, rfl, rfl⟩ := h
    exact Or.inr ⟨t, mid, b, upper_of_isWord (hhere.trans hword), rfl, hb, rfl⟩
  case isFalse =>
    obtain ⟨rfl, rfl⟩ := run_pure_ok.mp h
    exact Or.inl ⟨rfl, rfl⟩

theorem optional_yields {w : String} {clause : Reader α} {P : α → Prop} (hclause : Yields clause P) :
    Yields (optional w clause) fun a => ∀ b ∈ a, P b := by
  intro ts rest a h hts
  rcases optional_sound h with ⟨rfl, rfl⟩ | ⟨t, mid, b, -, rfl, hb, rfl⟩
  · exact ⟨by simp, hts⟩
  · obtain ⟨hP, hrest⟩ := hclause hb hts.tail
    refine ⟨?_, hrest⟩
    rintro c ⟨⟩
    exact hP

theorem readScope_yields : Yields readScope fun s => (word s).Whole := by
  intro ts rest s h hts
  unfold readScope at h
  simp only [run_bind_ok, run_takeWord_ok, run_takeName_ok] at h
  obtain ⟨_, _, ⟨t, rfl, -⟩, rfl⟩ := h
  exact ⟨hts.tail.head, hts.tail.tail⟩

theorem scope_spelled {s : String} (hs : (word s).Whole) :
    Spelled anyFirst readScope (fun _ => True) ("SCOPE " ++ s) s := by
  have htext := (spells_word (w := "SCOPE") (by decide)).space hs.spells
  refine ⟨word "SCOPE", [word s], trivial, htext, ?_⟩
  intro rest hrest
  unfold readScope
  simp only [run_bind_ok, run_takeWord_ok, run_takeName_ok]
  exact ⟨(), _, ⟨_, rfl, upper_reserved (by decide)⟩, rfl⟩

theorem readExpression_yields : Yields readExpression fun e =>
    endsEmpty e = false → ∃ name, Expression name e := by
  intro ts rest e h hts
  obtain ⟨hrest, name, after, -, hexpr⟩ := readExpression_sound h hts
  exact ⟨fun hclear => ⟨name, hexpr hclear⟩, hrest⟩

theorem readGroupBy_yields : Yields readGroupBy fun es =>
    es ≠ [] ∧ ((∀ e ∈ es, endsEmpty e = false) → Groups es) := by
  intro ts rest es h hts
  unfold readGroupBy at h
  simp only [run_bind_ok, run_takeWord_ok, run_atWord_ok, throw_bind, run_bar_ok] at h
  obtain ⟨_, _, ⟨t, rfl, -⟩, sets, _, ⟨hsets, rfl⟩, hnot, h⟩ := h
  obtain ⟨⟨hne, hall⟩, hrest⟩ := commaList_yields readExpression_yields h hts.tail
  obtain ⟨e, others, mid, rfl, he⟩ := commaList_head h
  obtain ⟨-, name, after, rfl, hexpr⟩ := readExpression_sound he hts.tail
  refine ⟨⟨hne, ?_⟩, hrest⟩
  intro hclear
  refine ⟨fun f hf => hall f hf (hclear f hf), ?_⟩
  rintro f ⟨⟩
  refine ⟨name, hexpr (hclear e (by simp)), ?_⟩
  rw [← hsets] at hnot
  simpa [Token.isWord] using hnot

theorem groups_spelled {es : List String} (hne : es ≠ []) (h : Groups es) :
    Spelled anyFirst readGroupBy
      (fun ts => NotOpening ts ∧ ts.head?.any (·.isMark ",") = false) ("BY " ++ joined ", " es) es := by
  cases es with
  | nil => exact absurd rfl hne
  | cons e others =>
    obtain ⟨name, hexpr, hname⟩ := h.2 e rfl
    have hothers : ∀ f ∈ others, Spelled anyFirst readExpression NotOpening (id f) f := by
      intro f hf
      obtain ⟨n, hn⟩ := h.1 f (by simp [hf])
      exact hn.spelled.weaken (fun _ _ => trivial) (fun _ h => h)
    obtain ⟨t, ts, rfl, hspells, hread⟩ := commaList_spelled (fun _ => rfl) hexpr.spelled hothers
    rw [List.map_id] at hspells
    have htext := (spells_word (w := "BY") (by decide)).space hspells
    refine ⟨word "BY", word name :: ts, trivial, htext, ?_⟩
    intro rest hrest
    unfold readGroupBy
    simp only [run_bind_ok, run_takeWord_ok, run_atWord_ok, throw_bind, run_bar_ok]
    refine ⟨(), word name :: (ts ++ rest), ⟨word "BY", rfl, upper_reserved (by decide)⟩, false, _,
      ⟨?_, rfl⟩, by simp, hread rest hrest⟩
    simpa [Token.isWord] using hname

theorem readOrderBy_yields : Yields readOrderBy fun ks => ks ≠ [] ∧
    ∀ k ∈ ks, endsEmpty k.field = false → ∃ name, Expression name k.field := by
  intro ts rest ks h hts
  unfold readOrderBy at h
  simp only [run_bind_ok, run_takeWord_ok] at h
  obtain ⟨_, _, ⟨t, rfl, -⟩, h⟩ := h
  exact commaList_yields readOrderKey_yields h hts.tail

theorem orderBy_spelled {ks : List OrderKey} (hne : ks ≠ [])
    (h : ∀ k ∈ ks, ∃ name, Expression name k.field) :
    Spelled anyFirst readOrderBy
      (fun ts => NoNulls ts ∧ ts.head?.any (·.isMark ",") = false)
      ("BY " ++ joined ", " (ks.map OrderKey.render)) ks := by
  cases ks with
  | nil => exact absurd rfl hne
  | cons k others =>
    have hcomma (ts : List Token) : NoNulls (comma :: ts) := by
      simp [NoNulls, Token.isWord]
    obtain ⟨t, ts, -, hspells, hread⟩ := commaList_spelled hcomma (orderKey_spelled (h k (by simp)))
      (fun l hl => orderKey_spelled (h l (List.mem_cons_of_mem _ hl)))
    have htext := (spells_word (w := "BY") (by decide)).space hspells
    refine ⟨word "BY", t :: ts, trivial, htext, ?_⟩
    intro rest hrest
    unfold readOrderBy
    simp only [run_bind_ok, run_takeWord_ok]
    exact ⟨(), _, ⟨word "BY", rfl, upper_reserved (by decide)⟩, hread rest hrest⟩

theorem optionalHaving_sound {ts rest : List Token} {a : Option String}
    (h : (optional "HAVING" readHaving).run ts = .ok (a, rest)) (hts : AllWhole ts) :
    AllWhole rest ∧ ∀ text ∈ a, ∃ depth, IsHaving depth text ∧ (depth = 0 ∨ rest = []) := by
  rcases optional_sound h with ⟨rfl, rfl⟩ | ⟨t, mid, text, -, rfl, htext, rfl⟩
  · exact ⟨hts, by simp⟩
  · obtain ⟨hrest, hhaving⟩ := readHaving_sound htext hts.tail
    refine ⟨hrest, ?_⟩
    rintro b ⟨⟩
    exact hhaving

/-- Where nothing is left, no clause is read. -/
theorem optional_nil {w : String} {clause : Reader α} {rest : List Token} {a : Option α}
    (h : (optional w clause).run [] = .ok (a, rest)) : a = none ∧ rest = [] := by
  rcases optional_sound h with ⟨rfl, rfl⟩ | ⟨t, mid, b, -, hts, -, -⟩
  · exact ⟨rfl, rfl⟩
  · cases hts

theorem readCount_nil {clause : String} {rest : List Token} {a : Option Nat}
    (h : (readCount clause).run [] = .ok (a, rest)) : a = none ∧ rest = [] := by
  cases h
  exact ⟨rfl, rfl⟩

end Soql.Query
