import Soql.Proofs.Query.Truth
import Soql.Proofs.Repair.Relabel

namespace Soql.Text

/-- No quote stands in the text, and no backslash at its end or in front of a line end, a quote or another
backslash. -/
def isKept : List Char → Bool
  | [] => true
  | '\\' :: c :: rest => c != '\n' && c != '\x27' && c != '\\' && isKept rest
  | c :: rest => c != '\x27' && c != '\\' && isKept rest

/-- A text without quotes and backslashes is kept. -/
theorem isKept_of_free {s : List Char} (h : ∀ c ∈ s, c ≠ '\x27' ∧ c ≠ '\\') : isKept s = true := by
  induction s with
  | nil => rfl
  | cons c s ih =>
    obtain ⟨hc, hs⟩ := List.forall_mem_cons.mp h
    unfold isKept
    split
    · cases ‹c :: s = []›
    · rename_i heq
      exact absurd (List.cons.inj heq).1 hc.2
    · rename_i heq
      obtain ⟨rfl, rfl⟩ := List.cons.inj heq
      simp [hc.1, hc.2, ih hs]

/-- What the body of a literal stands for is as long as the body just when nothing in it is escaped. -/
theorem length_unescape (body : List Char) : (unescape body).length ≤ body.length ∧
    (unescape body = body → ¬['\\', '\x27'] <:+: body ∧ ¬['\\', '\\'] <:+: body) := by
  obtain ⟨n, hquotes, hquote⟩ := @exists_length_replaceFrom ['\\', '\x27'] ['\x27'] (by simp) 0 body (Nat.zero_le _)
  obtain ⟨m, hbacks, -⟩ := @exists_length_replaceFrom ['\\', '\\'] ['\\'] (by simp) 0
    (replaceAll ['\\', '\x27'] ['\x27'] body) (Nat.zero_le _)
  have hlength : (unescape body).length + m + n = body.length := by
    change (replaceAll ['\\', '\x27'] ['\x27'] body).length + n * 2 + 0 = body.length + n * 1 at hquotes
    change (unescape body).length + m * 2 + 0 = (replaceAll ['\\', '\x27'] ['\x27'] body).length + m * 1 at hbacks
    omega
  refine ⟨by omega, ?_⟩
  intro hsame
  have hnone : ¬['\\', '\x27'] <:+: body := by
    intro hinside
    have hpos : 0 < n := hquote hinside
    rw [hsame] at hlength
    omega
  rw [unescape, replaceAll_of_not_infix hnone] at hsame
  exact ⟨hnone, (replaceAll_eq_self_iff (by simp) (by simp)).mp hsame⟩

/-- A text is kept when it is the body of a literal in which nothing is escaped. -/
theorem isKept_iff_body {s : List Char} :
    isKept s = true ↔ Body s ∧ ¬['\\', '\x27'] <:+: s ∧ ¬['\\', '\\'] <:+: s := by
  constructor
  · intro h
    have hpair {c d : Char} {rest : List Char} (hc : c ≠ d) (hback : c ≠ '\\') (hrest : ¬['\\', d] <:+: rest) :
        ¬['\\', d] <:+: '\\' :: c :: rest := by
      simp [List.infix_cons_iff, Ne.symm hc, Ne.symm hback, hrest]
    have hchar {c d : Char} {rest : List Char} (hc : c ≠ '\\') (hrest : ¬['\\', d] <:+: rest) :
        ¬['\\', d] <:+: c :: rest := by
      simp [List.infix_cons_iff, Ne.symm hc, hrest]
    fun_induction isKept s with
    | case1 => exact ⟨.nil, by simp, by simp⟩
    | case2 c rest ih =>
      simp only [Bool.and_eq_true, bne_iff_ne] at h
      obtain ⟨⟨⟨hline, hquote⟩, hback⟩, hrest⟩ := h
      obtain ⟨hbody, hfree⟩ := ih hrest
      exact ⟨.pair hline hbody, hpair hquote hback hfree.1, hpair hback hback hfree.2⟩
    | case3 c rest _ ih =>
      simp only [Bool.and_eq_true, bne_iff_ne] at h
      obtain ⟨⟨hquote, hback⟩, hrest⟩ := h
      obtain ⟨hbody, hfree⟩ := ih hrest
      exact ⟨.char hquote hback hbody, hchar hback hfree.1, hchar hback hfree.2⟩
  · rintro ⟨hbody, hquote, hback⟩
    -- The cases of a body are those of a kept text.
    induction hbody with
    | nil => rfl
    | @pair c rest hline _ ih =>
      rw [List.infix_cons_iff, List.infix_cons_iff, not_or, not_or] at hquote hback
      have hne {d : Char} (h : ¬['\\', d] <+: '\\' :: c :: rest) : c ≠ d := by
        rintro rfl
        exact h ⟨rest, rfl⟩
      simp [isKept, hline, hne hquote.1, hne hback.1, ih hquote.2.2 hback.2.2]
    | @char c rest hc hback' _ ih =>
      rw [List.infix_cons_iff, not_or] at hquote hback
      unfold isKept
      split
      · rfl
      · rename_i heq
        exact absurd (List.cons.inj heq).1 hback'
      · rename_i heq
        obtain ⟨rfl, rfl⟩ := List.cons.inj heq
        simp [hc, hback', ih hquote.2 hback.2]

/-- A kept text is the body of a literal that stands for it. -/
theorem isKept_iff {s : List Char} :
    isKept s = true ↔ literalBody '\x27' (s ++ ['\x27']) = some (s, []) ∧ unescape s = s := by
  rw [isKept_iff_body]
  constructor
  · rintro ⟨hbody, hquote, hback⟩
    refine ⟨hbody.literalBody [], ?_⟩
    rw [unescape, replaceAll_of_not_infix hquote, replaceAll_of_not_infix hback]
  · rintro ⟨hread, hsame⟩
    exact ⟨body_of_literalBody hread, (length_unescape s).2 hsame⟩

end Soql.Text

namespace Soql.Token

open Text

theorem Lexes.unique {s : List Char} {ts us : List Token} (h : Lexes s ts) (h' : Lexes s us) : ts = us :=
  Except.ok.inj ((h 0).symm.trans (h' 0))

/-- A token that a text starts with is the first of the tokens that the text is read as. -/
theorem lexes_start {c : Char} {rest : List Char} {kind : TokenKind} {n : Nat} {tokens : List Token}
    (hs : start c rest = some (some kind, n)) (h : Lexes (c :: rest) tokens) :
    ∃ more, tokens = ⟨kind, .ofList (c :: rest.take n)⟩ :: more ∧ Lexes (rest.drop n) more := by
  have h0 := h 0
  unfold scan at h0
  rw [hs] at h0
  dsimp only at h0
  split at h0
  · cases h0
  · rename_i more hmore
    cases h0
    exact ⟨more, rfl, lexes_of_scan hmore⟩

theorem lexes_space_iff {x : List Char} {tokens : List Token} : Lexes (' ' :: x) tokens ↔ Lexes x tokens := by
  rw [← lexes_dropWhile_iff, List.dropWhile_cons_of_pos (by decide), lexes_dropWhile_iff]

def spaced (ts : List Token) : List Char :=
  ts.flatMap fun t => t.text.toList ++ [' ']

/-- Tokens with a space after each are the first that a text is read as. -/
theorem lexes_spaced {ts : List Token} (hts : ∀ t ∈ ts, t.Whole) {x : List Char} {tokens : List Token}
    (h : Lexes (spaced ts ++ x) tokens) : ∃ more, tokens = ts ++ more ∧ Lexes x more := by
  induction ts generalizing tokens with
  | nil => exact ⟨tokens, rfl, h⟩
  | cons t ts ih =>
    obtain ⟨ht, hrest⟩ := List.forall_mem_cons.mp hts
    obtain ⟨kind, text⟩ := t
    obtain ⟨c, body, rfl, hs⟩ := ht
    have hstart := start_take_append hs (Apart.cons (c := ' ') (by decide) (spaced ts ++ x))
    rw [List.take_length] at hstart
    have hfirst : Lexes (c :: (body ++ ' ' :: (spaced ts ++ x))) tokens := by simpa [spaced] using h
    obtain ⟨more, rfl, hmore⟩ := lexes_start hstart hfirst
    rw [List.drop_left, lexes_space_iff] at hmore
    obtain ⟨others, rfl, hothers⟩ := ih hrest hmore
    refine ⟨others, ?_, hothers⟩
    rw [List.take_left]
    rfl

/-- A text that begins with a quote begins with a literal. -/
theorem lexes_quote {x : List Char} {tokens : List Token} (h : Lexes ('\x27' :: x) tokens) :
    ∃ body after more, literalBody '\x27' x = some (body, after) ∧
      tokens = ⟨.literal, .ofList ('\x27' :: (body ++ ['\x27']))⟩ :: more := by
  cases hbody : literalBody '\x27' x with
  | none =>
    have h0 := h 0
    have hs : start '\x27' x = none := by simp [start, isBlank, hbody]
    unfold scan at h0
    rw [hs] at h0
    cases h0
  | some found =>
    obtain ⟨body, after⟩ := found
    obtain ⟨more, rfl, -⟩ := lexes_start (start_iff.mpr (.literal rfl hbody)) h
    refine ⟨body, after, more, rfl, ?_⟩
    rw [← literalBody_append hbody, List.take_length_add_append, List.take_succ_cons, List.take_zero]

end Soql.Token

namespace Soql.Query

open Text Token

variable {κ : Type} {inside : Inside κ}

def selectIds (object condition : String) : String :=
  joined " " ["SELECT Id FROM", object, "WHERE", condition]

structure IsObjectName (name : String) : Prop where
  whole : (word name).Whole
  plain : name.toList.contains '.' = false

def ReadsAlone (object condition : String) (c : Comparison) : Prop :=
  ∃ q, parse (selectIds object condition) = .ok q ∧ q.filter = some (.leaf (.compare c))

section Reading

variable {operand : Reader (Filter κ)} {l : Leaf κ} {ts rest : List Token}

/-- The first of several items is read from the first tokens; when it is the only one, it leaves what all leave. -/
theorem separated_cons {α : Type} {isSeparator : Token → Bool} {item : Reader α} {fuel : Nat} {xs : List α}
    (h : (separated isSeparator item fuel).run ts = .ok (xs, rest)) :
    ∃ x others mid, xs = x :: others ∧ item.run ts = .ok (x, mid) ∧ (others = [] → mid = rest) := by
  induction fuel generalizing ts xs with
  | zero => exact absurd h run_throw_ok
  | succ fuel ih =>
    rw [separated] at h
    obtain ⟨x, mid, hx, hnext⟩ := run_bind_ok.mp h
    obtain ⟨next, _, hpeek, hmore⟩ := run_bind_ok.mp hnext
    obtain ⟨rfl, rfl⟩ := run_peek_ok.mp hpeek
    split at hmore
    · obtain ⟨sep, _, -, hothers⟩ := run_bind_ok.mp hmore
      obtain ⟨others, _, hrest, hout⟩ := run_bind_ok.mp hothers
      obtain ⟨rfl, rfl⟩ := run_pure_ok.mp hout
      obtain ⟨y, more, _, rfl, -⟩ := ih hrest
      exact ⟨x, _, mid, rfl, hx, fun h => absurd h (List.cons_ne_nil _ _)⟩
    · obtain ⟨rfl, rfl⟩ := run_pure_ok.mp hmore
      exact ⟨x, [], mid, rfl, hx, fun _ => rfl⟩

/-- Operands in a row that come to a condition without parts are a single one. -/
theorem run_of_combined {c : Connective} (h : (readCombined c operand).run ts = .ok (.leaf l, rest)) :
    operand.run ts = .ok (.leaf l, rest) := by
  unfold readCombined at h
  simp only [run_bind_ok, run_get_ok, run_pure_ok] at h
  obtain ⟨_, _, ⟨rfl, rfl⟩, operands, _, hrow, hsingle, rfl⟩ := h
  obtain ⟨f, others, mid, rfl, hf, hmid⟩ := separated_cons hrow
  cases others with
  | nil =>
    obtain rfl : f = .leaf l := hsingle
    rwa [hmid rfl] at hf
  | cons g others => cases hsingle

/-- A filter without parts is read as one operand. -/
theorem run_of_readFilter (h : (readFilter inside).run ts = .ok (.leaf l, rest)) :
    (readOperand inside (ts.length + 1)).run ts = .ok (.leaf l, rest) := by
  unfold readFilter at h
  simp only [run_bind_ok, run_get_ok] at h
  obtain ⟨_, _, ⟨rfl, rfl⟩, h⟩ := h
  exact run_of_combined (run_of_combined h)

theorem optional_word {α : Type} {w : String} (hw : isReserved w = true) {clause : Reader α} {a : Option α}
    (h : (optional w clause).run (word w :: ts) = .ok (a, rest)) : ∃ b, a = some b ∧ clause.run ts = .ok (b, rest) := by
  unfold optional at h
  simp only [run_bind_ok, run_atWord_ok] at h
  obtain ⟨_, _, ⟨rfl, rfl⟩, h⟩ := h
  rw [if_pos (by simp [isWord_reserved hw])] at h
  simp only [run_bind_ok, run_take_ok, run_pure_ok] at h
  obtain ⟨_, _, hcons, b, _, hb, rfl, rfl⟩ := h
  obtain ⟨-, rfl⟩ := List.cons.inj hcons
  exact ⟨b, rfl, hb⟩

theorem legible_id : (SelectItem.field "Id" none).Legible InnerLegible :=
  ⟨selectable_of_isProper (by decide +kernel), nofun⟩

theorem readItems_id (us : List Token) : (readItems innerInside).run (word "Id" :: word "FROM" :: us) =
    .ok ([.field "Id" none], word "FROM" :: us) := by
  have hlegible : ∀ item ∈ [SelectItem.field "Id" none], item.Legible InnerLegible := by
    simpa using legible_id
  obtain ⟨t, ts, -, hspells, hread⟩ := items_spelled rereadable_inner (by simp) hlegible
  have hname : Spells "Id" [word "Id"] := spells_word (by decide)
  have hsame : t :: ts = [word "Id"] := hspells.writes.lexes.unique hname.writes.lexes
  rw [hsame] at hread
  exact hread _ ⟨us, rfl⟩

/-- A query for the ids of an object is read with the filter that the tokens after its words are read as; what this
leaves begins a further clause. -/
theorem readFilter_of_run {object : String} {q : Query}
    (h : (readQuery innerInside).run
      (word "SELECT" :: word "Id" :: word "FROM" :: word object :: word "WHERE" :: ts) = .ok (q, [])) :
    ∃ f mid, (readFilter innerInside).run ts = .ok (f, mid) ∧ q.filter = some f ∧
      (mid ≠ [] → mid.head?.any (·.isWord clauseWords) = true) := by
  unfold readQuery at h
  simp only [run_bind_ok, run_takeWord_ok, run_takeName_ok, throw_bind, run_bar_ok, run_atWord_ok,
    run_pure_ok] at h
  obtain ⟨_, _, ⟨_, hselect, -⟩, items, mid₁, hitems, _, mid₂, ⟨_, hfrom, -⟩, _, mid₃, hobject, -,
    scope, mid₄, hscope, filter, mid₅, hfilter, _, _, ⟨-, rfl⟩, -, group, mid₆, hgroup, having, mid₇,
    hhaving, order, mid₈, horder, limit, mid₉, hlimit, offset, mid₁₀, hoffset, _, _, ⟨-, rfl⟩, -, rfl,
    rfl⟩ := h
  -- The words in front are read one after the other, and no scope stands before the filter.
  obtain ⟨-, rfl⟩ := List.cons.inj hselect
  rw [readItems_id] at hitems
  obtain ⟨-, rfl⟩ := Prod.mk.inj (Except.ok.inj hitems)
  obtain ⟨-, rfl⟩ := List.cons.inj hfrom
  obtain ⟨-, rfl⟩ := List.cons.inj hobject
  have hnone : (word "WHERE" :: ts).head?.any (·.isWord ["USING"]) = false := by
    rw [List.head?_cons, Option.any_some, isWord_reserved (by decide)]
    decide
  rw [optional_absent hnone] at hscope
  obtain ⟨-, rfl⟩ := Prod.mk.inj (Except.ok.inj hscope)
  obtain ⟨f, rfl, hread⟩ := optional_word (by decide) hfilter
  refine ⟨f, mid₅, hread, rfl, ?_⟩
  -- A token that begins no clause would be left by each of the clauses.
  intro hne
  by_contra hword
  have habsent {w : String} (hw : w ∈ clauseWords) : mid₅.head?.any (·.isWord [w]) = false := by
    rw [← Bool.not_eq_true, Option.any_eq_true]
    rintro ⟨t, ht, hwrong⟩
    refine hword ?_
    rw [Option.any_eq_true]
    refine ⟨t, ht, ?_⟩
    rw [Token.isWord, upper_of_isWord hwrong]
    exact List.elem_eq_true_of_mem hw
  rw [optional_absent (habsent (by decide))] at hgroup
  obtain ⟨-, rfl⟩ := Prod.mk.inj (Except.ok.inj hgroup)
  rw [optional_absent (habsent (by decide))] at hhaving
  obtain ⟨-, rfl⟩ := Prod.mk.inj (Except.ok.inj hhaving)
  rw [optional_absent (habsent (by decide))] at horder
  obtain ⟨-, rfl⟩ := Prod.mk.inj (Except.ok.inj horder)
  rw [readCount_absent (habsent (by decide))] at hlimit
  obtain ⟨-, rfl⟩ := Prod.mk.inj (Except.ok.inj hlimit)
  rw [readCount_absent (habsent (by decide))] at hoffset
  obtain ⟨-, rfl⟩ := Prod.mk.inj (Except.ok.inj hoffset)
  exact hne rfl

/-- Where a single condition is read from a field, an operator and a value of one token, it compares the field with
the value. -/
theorem compare_of_run {field : String} {op : Operator} (hfield : IsFieldName field) (hop : isSymbol op = true)
    {t : Token} (ht : t.Whole) (hkind : t.kind = .literal ∨ t.kind = .number) {more : List Token}
    (h : (readFilter inside).run (word field :: ⟨.operator, op.text⟩ :: t :: more) = .ok (.leaf l, rest)) :
    l = .compare ⟨field, op, t.text⟩ ∧ rest = more := by
  have hvalue : ValueReads op t.text t.text := by
    rw [valueReads_of_value (.inl hop)]
    exact ⟨t, ht, rfl, literal_rereads (by tauto)⟩
  obtain ⟨u, us, -, hspells, hreads⟩ := operand_of_leaf
    (@compare_spelled _ inside _ _ _ _ _ (conditionOn_of_fieldName hfield) (operator_capitals op) hvalue)
  have hname : Spells field [word field] := (whole_of_ofText hfield.whole).spells
  have hsymbol : Spells op.text [⟨.operator, op.text⟩] := (whole_symbol hop).spells
  have htokens : Spells (field ++ " " ++ (op.text ++ " " ++ t.text)) [word field, ⟨.operator, op.text⟩, t] :=
    hname.space (hsymbol.space ht.spells)
  have hsame : u :: us = [word field, ⟨.operator, op.text⟩, t] := hspells.writes.lexes.unique htokens.writes.lexes
  obtain ⟨rfl, rfl⟩ := List.cons.inj hsame
  -- The same tokens are read as the comparison, and there is one reading only.
  have hfuel : [⟨.operator, op.text⟩, t].length < (word field :: ⟨.operator, op.text⟩ :: t :: more).length + 1 := by
    simp only [List.length_cons, List.length_nil]
    omega
  have hboth := (run_of_readFilter h).symm.trans (hreads _ hfuel more trivial)
  obtain ⟨hfirst, rfl⟩ := Prod.mk.inj (Except.ok.inj hboth)
  exact ⟨Filter.leaf.inj hfirst, rfl⟩

end Reading

section Written

variable {object : String} (hobject : IsObjectName object)

include hobject

/-- A comparison that is written alone is read alone. -/
theorem readsAlone_of_ordinary {c : Comparison} (h : c.Ordinary) : ReadsAlone object c.text c := by
  let q : Query := { object, items := [.field "Id" none], filter := some (.leaf (.compare c)) }
  have hfilter : ∀ f ∈ q.filter, f.Legible InnerLegible := by
    rintro _ ⟨⟩
    exact .leaf ⟨conditionOn_of_fieldName h.field, valueFits_of_reads (valueReads_of_takes h.value)⟩
  have hq : QueryOf.Legible InnerLegible True q := {
    object := ⟨hobject.whole, hobject.plain⟩
    items := ⟨by simp [q], by simpa [q] using legible_id⟩
    scope := nofun
    filter := hfilter
    groupBy := ⟨nofun, nofun⟩
    having := nofun
    orderBy := nofun
    limit := nofun
    offset := nofun
    tolerant := rfl }
  refine ⟨q, ?_, rfl⟩
  have htext : q.render = selectIds object c.text := by
    apply String.toList_injective
    simp [q, Query.render, QueryOf.renderWith, selectIds, joined, Comparison.text, Filter.render, Leaf.render,
      SelectItem.render, Alias.render]
  rw [← htext]
  exact parse_of_legible hq

omit hobject in
theorem spaced_selectIds (object s : String) : (selectIds object s).toList =
    spaced [word "SELECT", word "Id", word "FROM", word object, word "WHERE"] ++ s.toList := by
  simp [selectIds, joined, spaced]

/-- A query with a condition of its own is read from the words before the condition and the tokens of it. -/
theorem tokens_of_parse {s : String} (hends : Ends s.toList) {q : Query} (h : parse (selectIds object s) = .ok q) :
    ∃ ts, Lexes s.toList ts ∧ AllWhole ts ∧ (readQuery innerInside).run
      (word "SELECT" :: word "Id" :: word "FROM" :: word object :: word "WHERE" :: ts) = .ok (q, []) := by
  obtain ⟨tokens, hscan, hwhole, hrun⟩ := parse_ok h
  have htext := spaced_selectIds object s
  have hfront : ∀ t ∈ [word "SELECT", word "Id", word "FROM", word object, word "WHERE"], t.Whole := by
    have hword {w : String} (hw : isIdent w = true) : (word w).Whole := whole_word hw
    simp only [List.forall_mem_cons]
    exact ⟨hword (by decide), hword (by decide), hword (by decide), hobject.whole, hword (by decide), nofun⟩
  have hbare : bareStatement (selectIds object s) = selectIds object s := by
    refine bareStatement_of_ends htext (by decide) ?_
    rw [htext]
    exact hends.append_left _
  rw [hbare] at hscan
  obtain ⟨ts, rfl, hts⟩ := lexes_spaced hfront (htext ▸ lexes_of_scan hscan)
  exact ⟨ts, hts, fun t ht => hwhole t (List.mem_append_right _ ht), hrun⟩

/-- Where a single condition is read from a field with an operator and some text, the text begins with a value of one
token that the condition compares the field with; what follows it begins a further clause. -/
theorem compare_of_parse {field s : String} {op : Operator} (hfield : IsFieldName field) (hop : isSymbol op = true)
    (hends : Ends s.toList) {q : Query} (h : parse (selectIds object (field ++ " " ++ (op.text ++ " " ++ s))) = .ok q)
    {l : Leaf InnerQuery} (hleaf : q.filter = some (.leaf l)) :
    ∃ ts, Lexes s.toList ts ∧ ∀ t more, ts = t :: more → t.kind = .literal ∨ t.kind = .number →
      l = .compare ⟨field, op, t.text⟩ ∧ (more ≠ [] → more.head?.any (·.isWord clauseWords) = true) := by
  have hcondition : (field ++ " " ++ (op.text ++ " " ++ s)).toList =
      spaced [word field, ⟨.operator, op.text⟩] ++ s.toList := by
    simp [spaced]
  have hfront : ∀ t ∈ [word field, ⟨.operator, op.text⟩], t.Whole := by
    simp only [List.forall_mem_cons]
    exact ⟨whole_of_ofText hfield.whole, whole_symbol hop, nofun⟩
  obtain ⟨tokens, htokens, hwhole, hrun⟩ := tokens_of_parse hobject (hcondition ▸ hends.append_left _) h
  rw [hcondition] at htokens
  obtain ⟨ts, rfl, hts⟩ := lexes_spaced hfront htokens
  refine ⟨ts, hts, ?_⟩
  rintro t more rfl hkind
  obtain ⟨f, mid, hread, hfilter, hmid⟩ := readFilter_of_run hrun
  rw [hleaf] at hfilter
  obtain rfl := Option.some.inj hfilter
  obtain ⟨hl, rfl⟩ := compare_of_run hfield hop (hwhole t (by simp)) hkind hread
  exact ⟨hl, hmid⟩

end Written

section Quoted

variable {object field v : String}

def quoted (v : String) : String :=
  "'" ++ v ++ "'"

theorem toList_quoted (v : String) : (quoted v).toList = '\x27' :: (v.toList ++ ['\x27']) := by
  simp [quoted]

theorem scalar_quoted (hv : literalBody '\x27' (v.toList ++ ['\x27']) = some (v.toList, [])) :
    ScalarText (quoted v) (quoted v) := by
  have hwhole : Token.Whole ⟨.literal, quoted v⟩ := whole_of_body (toList_quoted v) hv
  exact .token (hwhole.writes.lexes 0) (by decide)

theorem literalsOf_body {text : String} {body : List Char} (htext : text.toList = '\x27' :: (body ++ ['\x27']))
    (hbody : Body body) : literalsOf text = [.ofList (unescape body)] := by
  rw [literalsOf, htext, literalBodies_literal (hbody.literalBody [])]
  simp [literalBodies]

/-- A kept text in quotes stands for itself. -/
theorem literalsOf_quoted (hv : isKept v.toList = true) : literalsOf (quoted v) = [v] := by
  obtain ⟨hread, htext⟩ := isKept_iff.mp hv
  rw [literalsOf_body (toList_quoted v) (body_of_literalBody hread), htext, String.ofList_toList]

variable (hobject : IsObjectName object) (hfield : IsFieldName field)

include hobject hfield

theorem readsAlone_quoted {op : Operator} (hop : op = .equal ∨ op = .like)
    (hv : literalBody '\x27' (v.toList ++ ['\x27']) = some (v.toList, [])) :
    ReadsAlone object (Comparison.text ⟨field, op, quoted v⟩) ⟨field, op, quoted v⟩ := by
  refine readsAlone_of_ordinary hobject ⟨hfield, ?_⟩
  rcases hop with rfl | rfl <;> exact scalar_quoted hv

/-- A value that a single comparison is read with is kept. What the literal stands for is no longer than its body, so
that a value with a quote to end it early would be too long. -/
theorem isKept_of_readsAlone {c : Comparison}
    (h : ReadsAlone object (Comparison.text ⟨field, .equal, quoted v⟩) c)
    (hvalue : c.operator = .equal → c.value.toList.head? = some '\x27' → c.literals = [v]) :
    isKept v.toList = true := by
  obtain ⟨q, hq, hfilter⟩ := h
  have hends : Ends (quoted v).toList := ⟨'\x27' :: v.toList, '\x27', by simp [toList_quoted], by decide⟩
  obtain ⟨ts, hts, hread⟩ := @compare_of_parse _ hobject field _ .equal hfield rfl hends _ hq _ hfilter
  rw [toList_quoted] at hts
  obtain ⟨body, after, more, hbody, rfl⟩ := lexes_quote hts
  obtain ⟨hc, -⟩ := hread _ more rfl (.inl rfl)
  obtain rfl := Leaf.compare.inj hc
  have hshape := body_of_literalBody hbody
  have hliterals : literalsOf (.ofList ('\x27' :: (body ++ ['\x27']))) = [v] := hvalue rfl (by simp)
  rw [literalsOf_body (by simp) hshape, List.singleton_inj] at hliterals
  -- The body is no longer than the value, and with its quote it begins what stands behind the first quote.
  have hdecoded : v.toList = unescape body := by rw [← hliterals, String.toList_ofList]
  have hsplit := literalBody_append hbody
  have hlength := congrArg List.length hsplit
  have hshort := (length_unescape body).1
  rw [← hdecoded] at hshort
  simp only [List.length_append, List.length_cons, List.length_nil] at hlength
  obtain rfl : after = [] := List.length_eq_zero_iff.mp (by omega)
  obtain rfl : body = v.toList := List.append_cancel_right hsplit
  exact isKept_iff.mpr ⟨hbody, hdecoded.symm⟩

end Quoted

end Soql.Query
