import Soql.Proofs.Query.RetoldParts
import Soql.Proofs.Query.RoundTrip

namespace Soql.Token

open Text

theorem valued_digits {m : String} (h : m.toList.all isDecimal = true) :
    valued ⟨.number, m⟩ = ⟨.number, toString (decimalValue m.toList)⟩ := by
  rw [valued, if_pos]
  simpa using h

/-- A number is written with the value that was read. -/
theorem valued_count {m : String} (h : m.toList.all isDecimal = true) :
    valued ⟨.number, m⟩ = valued ⟨.number, toString (decimalValue m.toList)⟩ := by
  obtain ⟨hall, hvalue⟩ := digits_toString (decimalValue m.toList)
  rw [valued_digits h, valued_digits hall, hvalue]

end Soql.Token

namespace Soql.Query

open Text Token

section Clauses

variable {α : Type}

/-- A clause that may be left out is said again by its pieces of text. -/
theorem optional_retells {w : String} (hw : isReserved w = true) {clause : Reader α} {text : α → String}
    {pieces : Option α → List String} (hclause : Retells clause text) (hnone : pieces none = [])
    (hsome : ∀ ⦃ts rest : List Token⦄ ⦃a : α⦄, clause.run ts = .ok (a, rest) → AllWhole ts →
      pieces (some a) = [w ++ " " ++ text a]) : RetellsAll (optional w clause) pieces := by
  intro ts rest a h hts
  rcases optional_sound h with ⟨rfl, rfl⟩ | ⟨t, mid, b, hupper, rfl, hb, rfl⟩
  · rw [hnone]
    exact RetoldAll.nil ts
  · rw [hsome hb hts.tail]
    exact ((hclause hb hts.tail).after_word hts.head hw hupper).all

theorem readScope_retells : Retells readScope fun s => "SCOPE" ++ " " ++ s := by
  intro ts rest s h hts
  unfold readScope at h
  simp only [run_bind_ok, run_takeWord_ok, run_takeName_ok] at h
  obtain ⟨_, _, ⟨t, rfl, hupper⟩, rfl⟩ := h
  exact (Retold.token hts.tail.head rest).after_word hts.head (by decide) hupper

theorem scope_retells : RetellsAll (optional "USING" readScope) scopePieces := by
  apply optional_retells (by decide) readScope_retells rfl
  intro ts rest s h hts
  have hs : (word s).Whole := (readScope_yields h hts).1
  have hne : s.isEmpty = false := hs.spells.not_isEmpty
  rw [scopePieces, hne]
  simp [← String.append_assoc]

theorem readGroupBy_retells : Retells readGroupBy fun es => "BY" ++ " " ++ joined ", " es := by
  intro ts rest es h hts
  unfold readGroupBy at h
  simp only [run_bind_ok, run_takeWord_ok, run_atWord_ok, throw_bind, run_bar_ok] at h
  obtain ⟨_, _, ⟨t, rfl, hupper⟩, _, _, ⟨-, rfl⟩, -, h⟩ := h
  have hes := (commaList_retells readExpression_retells h hts.tail).after_word hts.head (by decide) hupper
  simpa using hes

theorem groupBy_retells : RetellsAll (optional "GROUP" readGroupBy) fun es => groupPieces (es.getD []) := by
  apply optional_retells (by decide) readGroupBy_retells rfl
  intro ts rest es h hts
  obtain ⟨⟨hne, -⟩, -⟩ := readGroupBy_yields h hts
  simp [groupPieces, hne, ← String.append_assoc]

theorem readHaving_retells : Retells readHaving id := by
  intro ts rest s h hts
  obtain ⟨taken, -, hcut, rfl⟩ := run_readHaving_ok.mp h
  obtain ⟨rfl, -⟩ := clauseTokens_sound hcut
  exact ⟨taken, taken, rfl, writes_rowText hts.left, .refl taken⟩

theorem having_retells : RetellsAll (optional "HAVING" readHaving) havingPieces := by
  apply optional_retells (by decide) readHaving_retells rfl
  intro ts rest s h hts
  obtain ⟨-, depth, hdepth, -⟩ := readHaving_sound h hts
  obtain ⟨t, us, -, hspells, -⟩ := having_spelled hdepth
  rw [havingPieces, hspells.not_isEmpty]
  simp

/-- The usual direction is written also where it was left out. -/
theorem readDirection_retells : Retells readDirection Direction.text := by
  intro ts rest d h hts
  unfold readDirection at h
  simp only [run_bind_ok, run_atWord_ok] at h
  obtain ⟨ascending, _, ⟨hascending, rfl⟩, descending, _, ⟨hdescending, rfl⟩, h⟩ := h
  split at h
  case isTrue hword =>
    simp only [run_bind_ok, run_take_ok, run_pure_ok] at h
    obtain ⟨t, _, rfl, rfl, rfl⟩ := h
    exact .reserved hts.head (by decide) (upper_of_isWord (hascending.trans hword)) _
  split at h
  case isTrue hword =>
    simp only [run_bind_ok, run_take_ok, run_pure_ok] at h
    obtain ⟨t, _, rfl, rfl, rfl⟩ := h
    exact .reserved hts.head (by decide) (upper_of_isWord (hdescending.trans hword)) _
  case isFalse =>
    obtain ⟨rfl, rfl⟩ := run_pure_ok.mp h
    have homitted : (word "ASC").isOmitted = true := by
      rw [isOmitted, folded_reserved (by decide)]
      decide
    exact ⟨[], [word "ASC"], rfl, writes_word (by decide), .omittedRight homitted .nil⟩

def nullsPieces : Option NullsPlace → List String
  | some place => ["NULLS " ++ place.text]
  | none => []

theorem readNulls_retells : RetellsAll readNulls nullsPieces := by
  intro ts rest nulls h hts
  unfold readNulls at h
  simp only [run_bind_ok, run_atWord_ok] at h
  obtain ⟨here, _, ⟨hhere, rfl⟩, h⟩ := h
  split at h
  case isTrue hword =>
    simp only [run_bind_ok, run_take_ok, run_atWord_ok] at h
    obtain ⟨t, _, rfl, first, _, ⟨hfirst, rfl⟩, h⟩ := h
    have hnulls : t.upper = "NULLS" := upper_of_isWord (hhere.trans hword)
    split at h
    case isTrue hword =>
      simp only [run_bind_ok, run_take_ok, run_pure_ok] at h
      obtain ⟨u, after, rfl, rfl, rfl⟩ := h
      have hplace : Retold (u :: after) after "FIRST" :=
        .reserved hts.tail.head (by decide) (upper_of_isWord (hfirst.trans hword)) after
      exact (hplace.after_word hts.head (by decide) hnulls).all
    case isFalse =>
      simp only [run_bind_ok, run_atWord_ok] at h
      obtain ⟨last, _, ⟨hlast, rfl⟩, h⟩ := h
      split at h
      case isTrue hword =>
        simp only [run_bind_ok, run_take_ok, run_pure_ok] at h
        obtain ⟨u, after, rfl, rfl, rfl⟩ := h
        have hplace : Retold (u :: after) after "LAST" :=
          .reserved hts.tail.head (by decide) (upper_of_isWord (hlast.trans hword)) after
        exact (hplace.after_word hts.head (by decide) hnulls).all
      case isFalse => exact absurd h run_throw_ok
  case isFalse =>
    obtain ⟨rfl, rfl⟩ := run_pure_ok.mp h
    exact RetoldAll.nil ts

theorem orderKey_pieces (k : OrderKey) :
    joined " " ([k.field] ++ [k.direction.text] ++ nullsPieces k.nulls) = k.render := by
  apply String.toList_injective
  unfold OrderKey.render
  cases k.nulls <;> simp [nullsPieces, joined]

theorem readOrderKey_retells : Retells readOrderKey OrderKey.render := by
  intro ts rest k h hts
  rw [readOrderKey_eq] at h
  simp only [run_bind_ok, run_pure_ok] at h
  obtain ⟨field, ts₁, hfield, d, ts₂, hd, nulls, _, hnulls, rfl, rfl⟩ := h
  have hretold := readExpression_retells hfield hts
  have hts₁ := hretold.whole hts
  have hdirection := readDirection_retells hd hts₁
  have hplace := readNulls_retells hnulls (hdirection.whole hts₁)
  rw [← orderKey_pieces]
  exact ((hretold.all.append hdirection.all).append hplace).joined

theorem readOrderBy_retells : Retells readOrderBy fun ks =>
    "BY" ++ " " ++ joined ", " (ks.map OrderKey.render) := by
  intro ts rest ks h hts
  unfold readOrderBy at h
  simp only [run_bind_ok, run_takeWord_ok] at h
  obtain ⟨_, _, ⟨t, rfl, hupper⟩, h⟩ := h
  exact (commaList_retells readOrderKey_retells h hts.tail).after_word hts.head (by decide) hupper

theorem orderBy_retells : RetellsAll (optional "ORDER" readOrderBy) fun ks => orderPieces (ks.getD []) := by
  apply optional_retells (by decide) readOrderBy_retells rfl
  intro ts rest ks h hts
  obtain ⟨⟨hne, -⟩, -⟩ := readOrderBy_yields h hts
  simp [orderPieces, hne, ← String.append_assoc]

/-- A count keeps its value, in whichever digits it was read. -/
theorem readCount_retells {w : String} (hw : isReserved w = true) (hcounts : ["LIMIT", "OFFSET"].contains w = true) :
    RetellsAll (readCount w) (countPieces (w ++ " ")) := by
  intro ts rest count h hts
  unfold readCount at h
  simp only [run_bind_ok, run_atWord_ok] at h
  obtain ⟨here, _, ⟨hhere, rfl⟩, h⟩ := h
  split at h
  case isTrue hword =>
    simp only [run_bind_ok, run_take_ok, throw_bind, run_guard_ok, run_bar_ok, run_pure_ok] at h
    obtain ⟨t, _, rfl, ⟨kind, m⟩, _, rfl, hnumber, -, rfl, rfl⟩ := h
    obtain ⟨rfl, hdigits⟩ : kind = .number ∧ m.toList.all isDecimal = true := by simpa using hnumber
    have hupper : t.upper = w := upper_of_isWord (hhere.trans hword)
    have hfolded : t.folded = (word w).folded := by
      rw [hts.head.folded_eq hw hupper, folded_reserved hw]
    have hwrites := (writes_word (isIdent_of_isReserved hw)).space (whole_count (decimalValue m.toList)).writes
    have hstarts : t.startsCount = true := by
      rw [startsCount, hfolded, folded_reserved hw]
      simpa [word] using hcounts
    exact Retold.all ⟨[t, ⟨.number, m⟩], _, rfl, hwrites, .counted hfolded hstarts (valued_count hdigits) .nil⟩
  case isFalse =>
    obtain ⟨rfl, rfl⟩ := run_pure_ok.mp h
    exact RetoldAll.nil ts

end Clauses

section Queries

variable {κ : Type} {inside : Inside κ} {text : κ → String}

theorem readItems_retells (hin : RetellsInside inside text) :
    Retells (readItems inside) fun items => joined ", " (items.map (SelectItem.render text)) := by
  intro ts rest items h hts
  unfold readItems at h
  simp only [run_bind_ok, run_peek_ok] at h
  obtain ⟨found, mid, hfound, next, _, ⟨rfl, rfl⟩, h⟩ := h
  have hall := commaList_retells (readItem_retells hin) hfound hts
  split at h
  · simp only [throw_bind, run_guard_ok, run_pure_ok] at h
    obtain ⟨-, rfl, rfl⟩ := h
    exact hall
  · obtain ⟨rfl, rfl⟩ := run_pure_ok.mp h
    exact hall

theorem readQuery_retells (hin : RetellsInside inside text) :
    Retells (readQuery inside) (QueryOf.renderWith text) := by
  intro ts rest q h hts
  unfold readQuery at h
  simp only [run_bind_ok, run_takeWord_ok, run_takeName_ok, throw_bind, run_bar_ok, run_atWord_ok,
    run_pure_ok] at h
  obtain ⟨_, _, ⟨t, rfl, hselect⟩, items, mid₁, hitems, _, mid₂, ⟨u, rfl, hfrom⟩, object, mid₃, rfl, -,
    scope, mid₄, hscope, filter, mid₅, hfilter, _, _, ⟨-, rfl⟩, -, group, mid₆, hgroup, having, mid₇,
    hhaving, order, mid₈, horder, limit, mid₉, hlimit, offset, mid₁₀, hoffset, _, _, ⟨-, rfl⟩, -, rfl,
    rfl⟩ := h
  -- Clause by clause, each from the tokens that the clause before has left.
  have items' := readItems_retells hin hitems hts.tail
  have whole₁ := items'.whole hts.tail
  have head' := items'.after_word hts.head (by decide) hselect
  have object' := (Retold.token whole₁.tail.head mid₃).after_word whole₁.head (by decide) hfrom
  have scope' := scope_retells hscope whole₁.tail.tail
  have whole₂ := scope'.whole whole₁.tail.tail
  have filter' : RetoldAll mid₄ mid₅ (filterPieces text filter) :=
    optional_retells (by decide) (readFilter_retells hin false) rfl (fun _ _ _ _ _ => rfl) hfilter whole₂
  have whole₃ := filter'.whole whole₂
  have group' := groupBy_retells hgroup whole₃
  have whole₄ := group'.whole whole₃
  have having' := having_retells hhaving whole₄
  have whole₅ := having'.whole whole₄
  have order' := orderBy_retells horder whole₅
  have whole₆ := order'.whole whole₅
  have limit' := readCount_retells (by decide) (by decide) hlimit whole₆
  have offset' := readCount_retells (by decide) (by decide) hoffset (limit'.whole whole₆)
  have hcount : countPieces "LIMIT " (limit.map Int.ofNat) = countPieces ("LIMIT" ++ " ") limit := by
    cases limit <;> rfl
  rw [renderWith_eq, renderClauses, hcount]
  exact (((((((head'.all.append object'.all).append scope').append filter').append group').append
    having').append order').append limit' |>.append offset').joined

theorem retellsInside_nothing : RetellsInside nothingInside Empty.elim where
  child := fun _ _ _ h _ => absurd h run_throw_ok
  semiJoin := fun _ _ _ h _ => absurd h run_throw_ok

theorem readInner_retells : Retells readInner fun q => q.render ++ ")" := by
  intro ts rest q h hts
  unfold readInner at h
  simp only [run_bind_ok, run_takeMark_ok, run_pure_ok] at h
  obtain ⟨q, mid, hread, _, _, rfl, rfl, rfl⟩ := h
  exact (readQuery_retells retellsInside_nothing hread hts).close

theorem retellsInside_inner : RetellsInside innerInside InnerQuery.render where
  child := readInner_retells
  semiJoin := readInner_retells

/-- A text and the text of the query that it is read as have the same tokens in the same order, apart from
parentheses, commas, the word for the usual direction and letter case, and with counts told by their
values. -/
theorem render_essence {text : String} {q : Query} (h : parse text = .ok q) :
    ∃ ts us, Token.ofText (bareStatement text) = .ok ts ∧ Token.ofText q.render = .ok us ∧
      essence false us = essence false ts := by
  obtain ⟨ts, hscan, hwhole, hread⟩ := parse_ok h
  obtain ⟨front, us, htokens, hwrites, halike⟩ := readQuery_retells retellsInside_inner hread hwhole
  obtain rfl : ts = front := by simpa using htokens
  exact ⟨ts, us, hscan, hwrites.lexes 0, (halike.essence_eq false).symm⟩

theorem render_essence_nested : ∃ q ts us, parse
      "select F(A,) x, (SELECT Id FROM C ORDER BY D nulls last) from A WHERE ((B = 1) OR not E in (2, 3)) limit 007;" =
        .ok q ∧
      Token.ofText (bareStatement
        "select F(A,) x, (SELECT Id FROM C ORDER BY D nulls last) from A WHERE ((B = 1) OR not E in (2, 3)) limit 007;") =
        .ok ts ∧
      Token.ofText q.render = .ok us ∧ essence false us = essence false ts := by
  obtain ⟨q, hq, -⟩ := exists_ok_of_any (r := parse
    "select F(A,) x, (SELECT Id FROM C ORDER BY D nulls last) from A WHERE ((B = 1) OR not E in (2, 3)) limit 007;")
    (p := fun q => q.limit == some 7) (by decide +kernel)
  obtain ⟨ts, us, hall⟩ := render_essence hq
  exact ⟨q, ts, us, hq, hall⟩

end Queries

end Soql.Query
