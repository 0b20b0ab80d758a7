import Soql.Proofs.Query.Clauses

namespace Soql.Query

open Text Token

variable {κ : Type} {inside : Inside κ} {text : κ → String} {clear : κ → Bool} {legible : κ → Prop}

theorem readItems_yields (hin : Rereadable inside text clear legible) :
    Yields (readItems inside) fun items => items ≠ [] ∧
      ∀ item ∈ items, item.isClear clear = true → item.Legible legible := by
  intro ts rest items h hts
  unfold readItems at h
  simp only [run_bind_ok, run_peek_ok] at h
  obtain ⟨found, mid, hfound, next, _, ⟨rfl, rfl⟩, h⟩ := h
  obtain ⟨hall, hmid⟩ := commaList_yields (readItem_yields hin) hfound hts
  split at h
  · simp only [throw_bind, run_guard_ok, run_pure_ok] at h
    obtain ⟨-, rfl, rfl⟩ := h
    exact ⟨hall, hmid⟩
  · obtain ⟨rfl, rfl⟩ := run_pure_ok.mp h
    exact ⟨hall, hmid⟩

theorem items_spelled (hin : Rereadable inside text clear legible) {items : List (SelectItem κ)}
    (hne : items ≠ []) (h : ∀ item ∈ items, item.Legible legible) :
    Spelled anyFirst (readItems inside) (fun ts => ∃ rest, ts = word "FROM" :: rest)
      (joined ", " (items.map (SelectItem.render text))) items := by
  cases items with
  | nil => exact absurd rfl hne
  | cons item others =>
    obtain ⟨t, ts, -, hspells, hread⟩ := commaList_spelled (fun ts => ⟨ts, Or.inl rfl⟩)
      (item_spelled hin (h item (by simp)))
      (fun other hother => item_spelled hin (h other (List.mem_cons_of_mem _ hother)))
    refine ⟨t, ts, trivial, hspells, ?_⟩
    rintro _ ⟨rest, rfl⟩
    unfold readItems
    simp only [run_bind_ok, run_peek_ok]
    refine ⟨item :: others, _, hread _ ⟨⟨rest, Or.inr rfl⟩, rfl⟩, _, _, ⟨rfl, rfl⟩, ?_⟩
    have hfrom : (word "FROM").upper = "FROM" := upper_reserved (by decide)
    simp only [List.head?_cons, throw_bind, run_guard_ok, run_pure_ok, hfrom]
    exact ⟨by decide, trivial, trivial⟩

/-- What the reader of a query has read. -/
theorem readQuery_sound (hin : Rereadable inside text clear legible) {ts rest : List Token}
    {q : QueryOf κ} (h : (readQuery inside).run ts = .ok (q, rest)) (hts : AllWhole ts) :
    q.tolerant = false ∧ (q.isClear clear = true → q.Legible legible (rest = [])) ∧
      AllWhole rest := by
  unfold readQuery at h
  simp only [run_bind_ok, run_takeWord_ok, run_takeName_ok, throw_bind, run_bar_ok, run_atWord_ok,
    run_pure_ok] at h
  obtain ⟨_, _, ⟨t, rfl, -⟩, items, mid₁, hitems, _, mid₂, ⟨u, rfl, -⟩, object, mid₃, rfl, hpoint,
    scope, mid₄, hscope, filter, mid₅, hfilter, _, _, ⟨-, rfl⟩, -, group, mid₆, hgroup, having, mid₇,
    hhaving, order, mid₈, horder, limit, mid₉, hlimit, offset, mid₁₀, hoffset, _, _, ⟨-, rfl⟩, -, rfl,
    rfl⟩ := h
  -- Clause by clause: what was read, and that the tokens left are whole.
  obtain ⟨⟨hne, hitems⟩, hwhole₁⟩ := readItems_yields hin hitems hts.tail
  obtain ⟨hscope, hwhole₂⟩ := optional_yields readScope_yields hscope hwhole₁.tail.tail
  obtain ⟨hfilter, hwhole₃⟩ := optional_yields (readFilter_yields (composes_legible hin)) hfilter hwhole₂
  obtain ⟨hgroup, hwhole₄⟩ := optional_yields readGroupBy_yields hgroup hwhole₃
  obtain ⟨hwhole₅, hhaving'⟩ := optionalHaving_sound hhaving hwhole₄
  obtain ⟨horder', hwhole₆⟩ := optional_yields readOrderBy_yields horder hwhole₅
  obtain ⟨hwhole₇, hlimit'⟩ := readCount_sound hlimit hwhole₆
  obtain ⟨hwhole₈, hoffset'⟩ := readCount_sound hoffset hwhole₇
  refine ⟨rfl, ?_, hwhole₈⟩
  intro hclear
  simp only [QueryOf.isClear, Bool.and_eq_true, List.all_eq_true, Bool.not_eq_true'] at hclear
  obtain ⟨⟨⟨hitemsClear, hleavesClear⟩, hgroupClear⟩, horderClear⟩ := hclear
  refine ⟨⟨hwhole₁.tail.head, by simpa using hpoint⟩, ⟨hne, ?_⟩, hscope, ?_, ?_, ?_, ?_, ?_, hoffset',
    rfl⟩
  · intro item hitem
    exact hitems item hitem (hitemsClear item hitem)
  · intro f hf
    apply hfilter f hf
    intro l hl
    apply hleavesClear
    simp only [QueryOf.leaves]
    rw [show filter = some f from hf]
    exact hl
  · cases group with
    | none => exact ⟨by simp, by simp⟩
    | some es => exact (hgroup es rfl).2 hgroupClear
  · -- A condition on groups that leaves a parenthesis open has taken all the tokens.
    intro text htext
    obtain ⟨depth, hdepth, hend⟩ := hhaving' text htext
    refine ⟨depth, hdepth, ?_⟩
    rcases hend with hzero | rfl
    · exact Or.inl hzero
    · obtain ⟨rfl, rfl⟩ := optional_nil horder
      obtain ⟨rfl, rfl⟩ := readCount_nil hlimit
      obtain ⟨rfl, rfl⟩ := readCount_nil hoffset
      exact Or.inr ⟨rfl, rfl, rfl, rfl⟩
  · intro k hk
    cases order with
    | none => cases hk
    | some ks => exact (horder' ks rfl).2 k hk (horderClear k hk)
  · intro n hn
    obtain ⟨count, hcount, rfl⟩ := Option.map_eq_some_iff.mp hn
    exact ⟨count, rfl, hlimit' count hcount⟩

def scopePieces : Option String → List String
  | some s => if s.isEmpty then [] else ["USING SCOPE " ++ s]
  | none => []

def filterPieces (text : κ → String) : Option (Filter κ) → List String
  | some f => ["WHERE " ++ f.render text false]
  | none => []

def groupPieces (es : List String) : List String :=
  if es.isEmpty then [] else ["GROUP BY " ++ joined ", " es]

def havingPieces : Option String → List String
  | some h => if h.isEmpty then [] else ["HAVING " ++ h]
  | none => []

def orderPieces (ks : List OrderKey) : List String :=
  if ks.isEmpty then [] else ["ORDER BY " ++ joined ", " (ks.map OrderKey.render)]

def countPieces {α : Type} [ToString α] (w : String) : Option α → List String
  | some n => [w ++ toString n]
  | none => []

def renderClauses (text : κ → String) (q : QueryOf κ) (filterClause : List String) : String :=
  joined " " (["SELECT " ++ joined ", " (q.items.map (·.render text)), "FROM " ++ q.object] ++
    scopePieces q.scope ++ filterClause ++ groupPieces q.groupBy ++ havingPieces q.having ++
    orderPieces q.orderBy ++ countPieces "LIMIT " q.limit ++ countPieces "OFFSET " q.offset)

theorem renderWith_eq (text : κ → String) (q : QueryOf κ) :
    q.renderWith text = renderClauses text q (filterPieces text q.filter) := by
  unfold QueryOf.renderWith renderClauses
  cases q.limit <;> cases q.offset <;> rfl

theorem scope_reads {scope : Option String} (h : ∀ s ∈ scope, (word s).Whole) :
    ClauseReads "USING" ["WHERE", "GROUP", "HAVING", "ORDER", "LIMIT", "OFFSET"]
      (optional "USING" readScope) (scopePieces scope) scope := by
  cases scope with
  | none => exact optional_none (by decide) (by decide)
  | some s =>
    have hs := h s rfl
    have hne : s.isEmpty = false := hs.spells.not_isEmpty
    have htext : "USING" ++ " " ++ ("SCOPE " ++ s) = "USING SCOPE " ++ s := by
      apply String.toList_injective
      simp
    rw [scopePieces, hne, ← htext]
    exact optional_some (by decide) (fun _ _ => trivial) (scope_spelled hs)

/-- What is read as a filter is read as one after its word. -/
theorem where_reads {s : String} {f : Filter κ}
    (h : Spelled anyFirst (readFilter inside) NoConnective s f) :
    ClauseReads "WHERE" ["GROUP", "HAVING", "ORDER", "LIMIT", "OFFSET"]
      (optional "WHERE" (readFilter inside)) ["WHERE" ++ " " ++ s] (some f) := by
  refine optional_some (by decide) ?_ h
  intro ts hts
  exact ⟨hts.not_word (by decide) (by decide), hts.not_word (by decide) (by decide)⟩

theorem filter_reads_clause (hin : Rereadable inside text clear legible) {filter : Option (Filter κ)}
    (h : ∀ f ∈ filter, f.Legible legible) :
    ClauseReads "WHERE" ["GROUP", "HAVING", "ORDER", "LIMIT", "OFFSET"]
      (optional "WHERE" (readFilter inside)) (filterPieces text filter) filter := by
  cases filter with
  | none => exact optional_none (by decide) (by decide)
  | some f => exact where_reads (filter_spelled hin (h f rfl))

theorem group_reads {es : List String} (h : Groups es) :
    ∃ groups : Option (List String), groups.getD [] = es ∧
      ClauseReads "GROUP" ["HAVING", "ORDER", "LIMIT", "OFFSET"] (optional "GROUP" readGroupBy)
        (groupPieces es) groups := by
  cases es with
  | nil => exact ⟨none, rfl, optional_none (by decide) (by decide)⟩
  | cons e others =>
    refine ⟨some (e :: others), rfl, ?_⟩
    have htext : "GROUP" ++ " " ++ ("BY " ++ joined ", " (e :: others)) =
        "GROUP BY " ++ joined ", " (e :: others) := by
      apply String.toList_injective
      simp
    rw [groupPieces, List.isEmpty_cons, ← htext]
    refine optional_some (by decide) ?_ (groups_spelled (by simp) h)
    intro ts hts
    exact ⟨hts.not_mark (by decide), hts.not_mark (by decide)⟩

theorem order_reads {ks : List OrderKey} (h : ∀ k ∈ ks, ∃ name, Expression name k.field) :
    ∃ keys : Option (List OrderKey), keys.getD [] = ks ∧
      ClauseReads "ORDER" ["LIMIT", "OFFSET"] (optional "ORDER" readOrderBy) (orderPieces ks) keys := by
  cases ks with
  | nil => exact ⟨none, rfl, optional_none (by decide) (by decide)⟩
  | cons k others =>
    refine ⟨some (k :: others), rfl, ?_⟩
    have htext : "ORDER" ++ " " ++ ("BY " ++ joined ", " ((k :: others).map OrderKey.render)) =
        "ORDER BY " ++ joined ", " ((k :: others).map OrderKey.render) := by
      apply String.toList_injective
      simp
    rw [orderPieces, List.isEmpty_cons, ← htext]
    refine optional_some (by decide) ?_ (orderBy_spelled (by simp) h)
    intro ts hts
    exact ⟨hts.not_word (by decide) (by decide), hts.not_mark (by decide)⟩

theorem readCount_absent {clause : String} {ts : List Token}
    (h : ts.head?.any (·.isWord [clause]) = false) : (readCount clause).run ts = .ok (none, ts) := by
  unfold readCount
  simp only [run_bind_ok, run_atWord_ok]
  exact ⟨false, ts, ⟨h, rfl⟩, rfl⟩

theorem count_none {clause : String} {words : List String}
    (hwords : (words.all fun v => isReserved v && !([clause].contains v)) = true)
    (hclosing : [clause].contains ")" = false) : ClauseReads clause words (readCount clause) [] none := by
  refine ⟨[], List.Forall₂.nil, ?_⟩
  intro rest hrest
  exact ⟨hrest.mono clause, readCount_absent (hrest.not_word hwords hclosing)⟩

theorem count_some {clause : String} (hc : isReserved clause = true) {words : List String} {n : Nat}
    (hn : IsCount n) :
    ClauseReads clause words (readCount clause) [clause ++ " " ++ toString n] (some n) := by
  have htext := (spells_word (isIdent_of_isReserved hc)).space (whole_count n).spells
  refine ⟨[_], List.Forall₂.cons htext List.Forall₂.nil, ?_⟩
  intro rest hrest
  exact ⟨Follow.cons clause _, readCount_rereads hc hn rest⟩

theorem limit_reads {limit : Option Int} (h : ∀ n ∈ limit, ∃ count : Nat, n = count ∧ IsCount count) :
    ∃ count : Option Nat, count.map Int.ofNat = limit ∧
      ClauseReads "LIMIT" ["OFFSET"] (readCount "LIMIT") (countPieces "LIMIT " limit) count := by
  cases limit with
  | none => exact ⟨none, rfl, count_none (by decide) (by decide)⟩
  | some n =>
    obtain ⟨count, rfl, hcount⟩ := h n rfl
    exact ⟨some count, rfl, count_some (by decide) hcount⟩

theorem offset_reads {offset : Option Nat} (h : ∀ n ∈ offset, IsCount n) :
    ClauseReads "OFFSET" [] (readCount "OFFSET") (countPieces "OFFSET " offset) offset := by
  cases offset with
  | none => exact count_none (by decide) (by decide)
  | some n => exact count_some (by decide) (h n rfl)

/-- A condition on groups is read again before the later clauses; where it leaves a parenthesis open,
nothing follows. -/
theorem having_reads {having : Option String} {last : Prop}
    (h : ∀ text ∈ having, ∃ depth, IsHaving depth text ∧ (depth = 0 ∨ last)) :
    ∃ rows, List.Forall₂ Spells (havingPieces having) rows ∧ ∀ rest,
      Follow ["ORDER", "LIMIT", "OFFSET"] rest → (last → rest = []) →
      Follow ["HAVING", "ORDER", "LIMIT", "OFFSET"] (rows.flatten ++ rest) ∧
      (optional "HAVING" readHaving).run (rows.flatten ++ rest) = .ok (having, rest) := by
  cases having with
  | none =>
    refine ⟨[], List.Forall₂.nil, ?_⟩
    intro rest hrest hlast
    exact ⟨hrest.mono _, optional_absent (hrest.not_word (by decide) (by decide))⟩
  | some text =>
    obtain ⟨depth, hdepth, hend⟩ := h text rfl
    obtain ⟨t, ts, -, hspells, hread⟩ := having_spelled hdepth
    have hne := hspells.not_isEmpty
    have hclause := (spells_word (w := "HAVING") (by decide)).space hspells
    rw [havingPieces, hne]
    refine ⟨[_], List.Forall₂.cons hclause List.Forall₂.nil, ?_⟩
    intro rest hrest hlast
    refine ⟨Follow.cons "HAVING" _, ?_⟩
    -- What follows is a later clause or a closing parenthesis, which end the condition.
    have hstop : rest = [] ∨ depth = 0 ∧ rest.head?.any endsClause = true := by
      cases rest with
      | nil => exact Or.inl rfl
      | cons u rest =>
        have hzero : depth = 0 := hend.resolve_right (fun hl => by cases hlast hl)
        refine Or.inr ⟨hzero, ?_⟩
        rcases hrest u rfl with rfl | ⟨w, hw, rfl⟩
        · simp [endsClause, isMark, closing]
        · have hword : (word w).isWord ["ORDER", "LIMIT", "OFFSET", "FOR"] = true := by
            simp only [List.mem_cons, List.not_mem_nil, or_false] at hw
            rcases hw with rfl | rfl | rfl <;> rw [isWord_reserved (by decide)] <;> decide
          simp [endsClause, hword]
    have hrun : (optional "HAVING" readHaving).run (word "HAVING" :: (t :: ts ++ rest)) =
        .ok (some text, rest) := optional_present (by decide) (hread rest hstop)
    simpa using hrun

/-- A legible query is read with the filter that the clause in its place is read as. -/
theorem clauses_reread (hin : Rereadable inside text clear legible) {last : Prop} {q : QueryOf κ}
    (h : QueryOf.Legible legible last { q with filter := none }) {pieces : List String}
    {f : Option (Filter κ)} (hf : ClauseReads "WHERE" ["GROUP", "HAVING", "ORDER", "LIMIT", "OFFSET"]
      (optional "WHERE" (readFilter inside)) pieces f) :
    ∃ ts, Spells (renderClauses text q pieces) (word "SELECT" :: ts) ∧
      ∀ rest, Follow [] rest → (last → rest = []) →
        (readQuery inside).run (word "SELECT" :: ts ++ rest) = .ok ({ q with filter := f }, rest) := by
  obtain ⟨t, items, -, hitems, readItems'⟩ := items_spelled hin h.items.1 h.items.2
  obtain ⟨scope, hscope, readScope'⟩ := scope_reads h.scope
  obtain ⟨filter, hfilter, readFilter'⟩ := hf
  obtain ⟨groups, hgroups, group, hgroup, readGroup'⟩ := group_reads h.groupBy
  obtain ⟨having, hhaving, readHaving'⟩ := having_reads h.having
  obtain ⟨keys, hkeys, order, horder, readOrder'⟩ := order_reads h.orderBy
  obtain ⟨count, hcount, limit, hlimit, readLimit'⟩ := limit_reads h.limit
  obtain ⟨offset, hoffset, readOffset'⟩ := offset_reads h.offset
  have hselect := (spells_word (w := "SELECT") (by decide)).space hitems
  have hfrom := (spells_word (w := "FROM") (by decide)).space h.object.1.spells
  have hhead := List.Forall₂.cons hselect (List.Forall₂.cons hfrom List.Forall₂.nil)
  have hall := List.rel_append (List.rel_append (List.rel_append (List.rel_append (List.rel_append
    (List.rel_append (List.rel_append hhead hscope) hfilter) hgroup) hhaving) horder) hlimit) hoffset
  have hspells := spells_joined (by simp) hall writes_joined_space
  -- The tokens of the clauses in the order of the text.
  refine ⟨t :: items ++ (word "FROM" :: word q.object :: (scope.flatten ++ (filter.flatten ++
    (group.flatten ++ (having.flatten ++ (order.flatten ++ (limit.flatten ++ offset.flatten))))))),
    ?_, ?_⟩
  · simpa [renderClauses, List.append_assoc] using hspells
  · intro rest hrest hlast
    -- Each clause is read before the ones that follow it, so the last comes first here.
    obtain ⟨follow₁, hoffset'⟩ := readOffset' rest hrest
    obtain ⟨follow₂, hlimit'⟩ := readLimit' _ follow₁
    obtain ⟨follow₃, horder'⟩ := readOrder' _ follow₂
    -- A condition on groups that stays open stands at the end of everything.
    have hopen : (last ∧ q.orderBy = [] ∧ q.limit = none ∧ q.offset = none) →
        order.flatten ++ (limit.flatten ++ (offset.flatten ++ rest)) = [] := by
      rintro ⟨hl, ho, hc, hf⟩
      rw [ho] at horder
      rw [hc] at hlimit
      rw [hf] at hoffset
      rw [List.forall₂_nil_left_iff.mp horder, List.forall₂_nil_left_iff.mp hlimit,
        List.forall₂_nil_left_iff.mp hoffset, hlast hl]
      rfl
    obtain ⟨follow₄, hhaving'⟩ := readHaving' _ follow₃ hopen
    obtain ⟨follow₅, hgroup'⟩ := readGroup' _ follow₄
    obtain ⟨follow₆, hfilter'⟩ := readFilter' _ follow₅
    obtain ⟨-, hscope'⟩ := readScope' _ follow₆
    have hfor : rest.head?.any (·.isWord ["FOR"]) = false := hrest.not_word (by decide) (by decide)
    have hwith : (group.flatten ++ (having.flatten ++ (order.flatten ++ (limit.flatten ++
        (offset.flatten ++ rest))))).head?.any (·.isWord ["WITH"]) = false :=
      follow₅.not_word (by decide) (by decide)
    have hitems' := readItems' (word "FROM" :: word q.object :: (scope.flatten ++ (filter.flatten ++
      (group.flatten ++ (having.flatten ++ (order.flatten ++ (limit.flatten ++ (offset.flatten ++
        rest)))))))) ⟨_, rfl⟩
    unfold readQuery
    simp only [run_bind_ok, run_takeWord_ok, run_takeName_ok, throw_bind, run_bar_ok, run_atWord_ok,
      run_pure_ok]
    refine ⟨(), _, ⟨word "SELECT", rfl, upper_reserved (by decide)⟩, q.items, _, ?_, (), _,
      ⟨word "FROM", rfl, upper_reserved (by decide)⟩, q.object, _, rfl, by simpa using h.object.2, q.scope, _,
      hscope', f, _, hfilter', false, _, ⟨hwith, rfl⟩, by simp, groups, _, hgroup', q.having, _,
      hhaving', keys, _, horder', count, _, hlimit', q.offset, _, hoffset', false, _, ⟨hfor, rfl⟩,
      by simp, ?_, rfl⟩
    · simpa [List.append_assoc] using hitems'
    · rw [hgroups, hkeys, hcount, ← h.tolerant]

/-- A legible query is read again from its text. -/
theorem query_rereads (hin : Rereadable inside text clear legible) {last : Prop} {q : QueryOf κ}
    (h : q.Legible legible last) : ∃ ts, Spells (q.renderWith text) (word "SELECT" :: ts) ∧
      ∀ rest, Follow [] rest → (last → rest = []) →
        (readQuery inside).run (word "SELECT" :: ts ++ rest) = .ok (q, rest) := by
  rw [renderWith_eq]
  exact clauses_reread hin { h with filter := nofun } (filter_reads_clause hin h.filter)

theorem rereadable_nothing :
    Rereadable nothingInside Empty.elim Empty.elim (fun q : Empty => q.elim) where
  child := fun _ _ _ h _ => absurd h run_throw_ok
  semiJoin := fun _ _ _ h _ => absurd h run_throw_ok
  spelled := fun q => q.elim

def InnerLegible (q : InnerQuery) : Prop :=
  QueryOf.Legible (fun q : Empty => q.elim) False q

theorem readInner_yields : Yields readInner fun q => q.isClear = true → InnerLegible q := by
  intro ts rest q h hts
  unfold readInner at h
  simp only [run_bind_ok, run_takeMark_ok, run_pure_ok] at h
  obtain ⟨q, mid, hread, _, _, rfl, rfl, rfl⟩ := h
  obtain ⟨-, hlegible, hrest⟩ := readQuery_sound rereadable_nothing hread hts
  refine ⟨?_, hrest.tail⟩
  -- The closing parenthesis still follows, so the condition on groups is closed.
  intro hclear
  exact (hlegible hclear).mono (fun hnil => by cases hnil)

theorem readInner_rereads {q : InnerQuery} (h : InnerLegible q) :
    ∃ ts, Spells q.render (word "SELECT" :: ts) ∧ ∀ rest,
      readInner.run (word "SELECT" :: ts ++ closing :: rest) = .ok (q, rest) := by
  obtain ⟨ts, hspells, hread⟩ := query_rereads rereadable_nothing h
  refine ⟨ts, hspells, ?_⟩
  intro rest
  have hfollow : Follow [] (closing :: rest) := by
    intro t ht
    exact Or.inl (by simpa using ht.symm)
  unfold readInner
  simp only [run_bind_ok, run_takeMark_ok, run_pure_ok]
  exact ⟨q, _, hread _ hfollow False.elim, (), rest, rfl, rfl, rfl⟩

theorem rereadable_inner :
    Rereadable innerInside InnerQuery.render InnerQuery.isClear InnerLegible where
  child := readInner_yields
  semiJoin := readInner_yields
  spelled := by
    intro q h
    obtain ⟨ts, hspells, hread⟩ := readInner_rereads h
    exact ⟨ts, hspells, fun rest => ⟨hread rest, hread rest⟩⟩

theorem run_nothingLeft_ok {ts rest : List Token} {u : Unit} :
    nothingLeft.run ts = .ok (u, rest) ↔ ts = [] ∧ rest = [] := by
  unfold nothingLeft
  simp only [run_bind_ok, run_peek_ok]
  constructor
  · rintro ⟨next, _, ⟨rfl, rfl⟩, h⟩
    cases ts with
    | nil =>
      obtain ⟨-, rfl⟩ := run_pure_ok.mp h
      exact ⟨rfl, rfl⟩
    | cons t ts =>
      simp only [List.head?_cons] at h
      split at h <;> exact absurd h run_throw_ok
  · rintro ⟨rfl, rfl⟩
    exact ⟨_, _, ⟨rfl, rfl⟩, rfl⟩

theorem ofTokens_ok {ts : List Token} {q : Query} :
    ofTokens ts = .ok q ↔ (readQuery innerInside).run ts = .ok (q, []) := by
  unfold ofTokens
  simp only [run'_ok, run_bind_ok, run_nothingLeft_ok, run_pure_ok]
  constructor
  · rintro ⟨_, _, mid, hread, _, _, ⟨rfl, rfl⟩, rfl, rfl⟩
    exact hread
  · intro hread
    exact ⟨[], q, [], hread, (), [], ⟨rfl, rfl⟩, rfl, rfl⟩

/-- The text of a query begins with a letter. -/
theorem renderClauses_first (text : κ → String) (q : QueryOf κ) (pieces : List String) :
    ∃ rest, (renderClauses text q pieces).toList = 'S' :: rest := by
  simp only [renderClauses, List.cons_append, joined, String.intercalate_cons_cons,
    String.toList_append]
  exact ⟨_, rfl⟩

theorem parse_ok {text : String} {q : Query} (h : parse text = .ok q) :
    ∃ ts, Token.ofText (bareStatement text) = .ok ts ∧ AllWhole ts ∧
      (readQuery innerInside).run ts = .ok (q, []) := by
  unfold parse at h
  simp only at h
  split at h
  · cases h
  · split at h
    · cases h
    · rename_i tokens hscan
      exact ⟨tokens, hscan, whole_of_scan hscan, ofTokens_ok.mp h⟩

theorem parse_of_spells {text : String} {c : Char} {front : List Char} {ts : List Token} {q : Query}
    (htext : text.toList = c :: front) (hc : isBlank c = false) (h : Spells text ts)
    (hread : (readQuery innerInside).run ts = .ok (q, [])) : parse text = .ok q := by
  have hne : text.isEmpty = false := by
    rw [← Bool.not_eq_true, String.isEmpty_iff]
    rintro rfl
    cases htext
  have hscan : Token.ofText text = .ok ts := h.writes.lexes 0
  unfold parse
  simp only [bareStatement_of_ends htext hc h.ends, hne, hscan]
  exact ofTokens_ok.mpr hread

/-- What a query is that was read from a text. -/
theorem parse_sound {text : String} {q : Query} (h : parse text = .ok q) :
    q.tolerant = false ∧ (q.isClear = true → QueryOf.Legible InnerLegible True q) := by
  obtain ⟨tokens, -, hwhole, hread⟩ := parse_ok h
  obtain ⟨htolerant, hlegible, -⟩ := readQuery_sound rereadable_inner hread hwhole
  exact ⟨htolerant, fun hq => (hlegible hq).mono fun _ => trivial⟩

/-- A legible query is read with the filter that the clause in its place is read as. -/
theorem parse_of_clauses {q : Query} (h : QueryOf.Legible InnerLegible True { q with filter := none })
    {pieces : List String} {f : Option (Filter InnerQuery)}
    (hf : ClauseReads "WHERE" ["GROUP", "HAVING", "ORDER", "LIMIT", "OFFSET"]
      (optional "WHERE" (readFilter innerInside)) pieces f) :
    parse (renderClauses InnerQuery.render q pieces) = .ok { q with filter := f } := by
  obtain ⟨ts, hspells, hread⟩ := clauses_reread rereadable_inner h hf
  obtain ⟨front, hfront⟩ := renderClauses_first InnerQuery.render q pieces
  have hrun := hread [] (fun t ht => by cases ht) (fun _ => rfl)
  rw [List.append_nil] at hrun
  exact parse_of_spells hfront (by decide) hspells hrun

/-- A legible query is read again from the text it is written as. -/
theorem parse_of_legible {q : Query} (h : QueryOf.Legible InnerLegible True q) :
    parse q.render = .ok q := by
  have hfilter := filter_reads_clause rereadable_inner h.filter
  have hagain := parse_of_clauses { h with filter := nofun } hfilter
  rwa [← renderWith_eq] at hagain

/-- A query that can be told from its text is read again, the same on both levels, from the text it
is written as. -/
theorem parse_render {text : String} {q : Query} (h : parse text = .ok q) (hq : q.isClear = true) :
    parse q.render = .ok q :=
  parse_of_legible ((parse_sound h).2 hq)

theorem parse_render_nested : ∃ q, parse
      "select F(A) a, (SELECT Id FROM C) from A WHERE B = 1 OR NOT D IN (SELECT E FROM G);" = .ok q ∧
      q.isClear = true ∧ parse q.render = .ok q := by
  obtain ⟨q, hq, hclear⟩ := exists_ok_of_any (r := parse
    "select F(A) a, (SELECT Id FROM C) from A WHERE B = 1 OR NOT D IN (SELECT E FROM G);")
    (p := Query.isClear) (by decide +kernel)
  exact ⟨q, hq, hclear, parse_render hq hclear⟩

end Soql.Query
