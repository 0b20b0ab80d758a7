import Mathlib.Data.Bool.AllAny
import Soql.Proofs.Query.Mentions
import Soql.Proofs.Query.RoundTrip

namespace Soql.Token

open Text

theorem laid_word {w : String} (h : (word w).Whole) : Laid w.toList [word w] := by
  simpa using Laid.token h (.inr .nil) .nil

theorem Laid.append {s x : List Char} {ts us : List Token} (hs : Laid s ts) (hx : Laid x us)
    (hapart : Apart x) : Laid (s ++ x) (ts ++ us) := by
  induction hs with
  | nil => exact hx
  | space _ ih => exact .space ih
  | token ht hends _ ih =>
    rw [List.append_assoc]
    exact .token ht (hends.imp_right (·.append hapart)) ih

theorem laid_mark {c : Char} (hc : c = ')' ∨ c = ',' ∨ c = '(') {s : List Char} {ts : List Token}
    (h : Laid s ts) : Laid (c :: s) (⟨.mark, .ofList [c]⟩ :: ts) := by
  have hwhole : Whole ⟨.mark, .ofList [c]⟩ := ⟨c, [], rfl, start_mark hc []⟩
  simpa using Laid.token hwhole (.inl rfl) h

end Soql.Token

namespace Soql

open Text Token

def SelectItem.texts {κ : Type} : SelectItem κ → List String
  | field path _ => [path]
  | call _ args _ => args
  | child _ => []
  | typeOf _ _ _ => []

def QueryOf.texts {κ : Type} (q : QueryOf κ) : Clause → List String
  | .select => q.items.flatMap SelectItem.texts
  | .filter => q.leaves.map Leaf.field
  | .group => q.groupBy
  | .order => q.orderBy.map OrderKey.field

/-- A text names a path: the path is one of its tokens, no reserved word and not the name of a call. -/
def Names (expr path : String) : Prop :=
  isPath path = true ∧ Vocabulary.isKeyword path = false ∧
    ∃ before after, Token.ofText expr = .ok (before ++ word path :: after) ∧ Uncalled after

namespace Query

theorem covers_spaced : Covers fun c => c.toNat ≠ 0x3a3 ∧ (isBlank c = true → c = ' ') := by
  have hsolid {c : Char} (hc : solid c = true) : isBlank c = true → c = ' ' := by
    intro hblank
    simp [solid, hblank] at hc
  have hsigma {c : Char} (hcode : c.toNat = 0x3a3) : isDecimal c = false ∧ isIdentRest c = false := by
    rw [← Char.ofNat_toNat c, hcode]
    decide
  refine ⟨fun c hc => ⟨?_, hsolid (solid_of_decimal hc)⟩, fun c hc => ⟨?_, hsolid (solid_of_identRest hc)⟩, ?_⟩
  · intro hcode
    rw [(hsigma hcode).1] at hc
    cases hc
  · intro hcode
    rw [(hsigma hcode).2] at hc
    cases hc
  · exact List.all_iff_forall_prop.mp (by decide)

/-- No name holds a capital sigma. -/
theorem sigmaFree_of_whole {w : String} (h : (word w).Whole) : SigmaFree w :=
  fun c hc => (h.chars covers_spaced (List.all_iff_forall_prop.mp (by decide)) nofun nofun c hc).1

variable {κ : Type} {inside : Inside κ} {text : κ → String} {clear : κ → Bool} {legible : κ → Prop}

def IsLaid (expr : String) : Prop :=
  ∃ ts, Laid expr.toList ts

theorem laid_rowTexts {rows : List (List Token)} (h : ∀ row ∈ rows, AllWhole row) :
    Laid (joined ", " (rows.map rowText)).toList ([comma].intercalate rows) := by
  induction rows with
  | nil => exact .nil
  | cons row rows ih =>
    obtain ⟨hrow, hrows⟩ := List.forall_mem_cons.mp h
    have hlaid := laid_rowText hrow
    cases rows with
    | nil => simpa [joined] using hlaid
    | cons row' rows =>
      have hrest := laid_mark (c := ',') (by decide) (.space (ih hrows))
      have hall := Laid.append hlaid hrest (Apart.cons (by decide) _)
      rw [List.intercalate_cons_cons]
      simpa [joined, comma, String.intercalate_cons_cons] using hall

theorem laid_callText {name : String} (hname : (word name).Whole) {args : List String}
    (h : IsArguments args) : IsLaid (callText name args) := by
  obtain ⟨rows, rfl, hrows⟩ := h
  have hclose : Laid [')'] [closing] := laid_mark (by decide) .nil
  have hinside := Laid.append (laid_rowTexts fun row hrow => (hrows row hrow).2) hclose
    (Apart.cons (by decide) _)
  have hcall := Laid.append (laid_word hname) (laid_mark (c := '(') (by decide) hinside)
    (Apart.cons (by decide) _)
  exact ⟨_, by simpa [callText] using hcall⟩

theorem IsLaid.of_arguments {args : List String} (h : IsArguments args) : ∀ a ∈ args, IsLaid a := by
  obtain ⟨rows, rfl, hrows⟩ := h
  intro a ha
  obtain ⟨row, hrow, rfl⟩ := List.mem_map.mp ha
  exact ⟨row, laid_rowText (hrows row hrow).2⟩

theorem readExpression_laid : Yields readExpression IsLaid := by
  intro ts rest e h hts
  unfold readExpression at h
  simp only [run_bind_ok, run_takeName_ok, run_atMark_ok] at h
  obtain ⟨name, after, rfl, call?, _, ⟨-, rfl⟩, h⟩ := h
  split at h
  · simp only [run_bind_ok, run_pure_ok] at h
    obtain ⟨args, _, hargs, rfl, rfl⟩ := h
    obtain ⟨hargs, hrest⟩ := readArguments_sound hargs hts.tail
    exact ⟨laid_callText hts.head hargs, hrest⟩
  · obtain ⟨rfl, rfl⟩ := run_pure_ok.mp h
    exact ⟨⟨_, laid_word hts.head⟩, hts.tail⟩

/-- A select item is a name or a call with arguments, or it names no field of its own object. -/
def ItemLaid : SelectItem κ → Prop
  | .field path _ => (word path).Whole
  | .call name args _ => (word name).Whole ∧ IsArguments args
  | .child _ => True
  | .typeOf _ _ _ => True

theorem readItem_laid (hin : Rereadable inside text clear legible) : Yields (readItem inside) ItemLaid := by
  intro ts rest item h hts
  cases itemRead_of_run h with
  | child heq hq =>
    subst heq
    exact ⟨trivial, (hin.child hq hts.tail).2⟩
  | typeOf hitem =>
    have hsound : item.Legible legible ∧ AllWhole rest := readTypeOf_sound hitem hts
    refine ⟨?_, hsound.2⟩
    -- The branches name fields of other objects, so nothing is asked of them.
    rw [readTypeOf_eq] at hitem
    simp only [run_bind_ok, throw_bind, run_bar_ok, run_pure_ok] at hitem
    obtain ⟨_, _, -, _, _, -, _, _, -, _, _, -, _, _, -, _, _, -, -, rfl, -⟩ := hitem
    trivial
  | call heq hname hargs ha =>
    subst heq
    obtain ⟨hargs, hmid⟩ := readArguments_sound hargs hts.tail
    exact ⟨⟨hts.head, hargs⟩, (readAlias_sound ha hmid).1⟩
  | field heq hname ha =>
    subst heq
    exact ⟨hts.head, (readAlias_sound ha hts.tail).1⟩

/-- A filter has in all its conditions what each condition has when it is read. -/
theorem composes_leaves {P : Leaf κ → Prop} (hleaf : Yields (readLeaf inside) P) :
    Composes inside fun f => ∀ l ∈ f.leaves, P l where
  leaf := by
    intro ts rest l h hts _
    obtain ⟨hl, hrest⟩ := hleaf h hts
    refine ⟨?_, hrest⟩
    intro l' hl'
    rwa [List.mem_singleton.mp hl']
  combined := by
    intro c fs hne h
    -- A single operand stands for itself; the conditions of several are those of each.
    match fs, h with
    | [f], h => exact h f (by simp)
    | f :: g :: others, h =>
      intro l hl
      change l ∈ Filter.leavesOfAll (f :: g :: others) at hl
      rw [leavesOfAll_eq] at hl
      obtain ⟨operand, hmem, hl⟩ := List.mem_flatMap.mp hl
      exact h operand hmem l hl
  negation := fun h => h

/-- Every condition of a filter is on a text of tokens, and its value stands after its operator. -/
def FilterLaid (f : Filter κ) : Prop :=
  ∀ l ∈ f.leaves, IsLaid l.field ∧ Leaf.Valued l

theorem composes_laid (hin : Rereadable inside text clear legible) : Composes inside FilterLaid := by
  apply composes_leaves
  intro ts rest l h hts
  rw [readLeaf_eq, run_bind_ok] at h
  obtain ⟨field, mid, hfield, htest⟩ := h
  obtain ⟨hlaid, hmid⟩ := readExpression_laid hfield hts
  obtain ⟨⟨rfl, hvalued, -⟩, hrest⟩ := readTest_yields hin field htest hmid
  exact ⟨⟨hlaid, hvalued⟩, hrest⟩

theorem readItems_all {P : SelectItem κ → Prop} (hitem : Yields (readItem inside) P) :
    Yields (readItems inside) fun items => ∀ item ∈ items, P item := by
  intro ts rest items h hts
  unfold readItems at h
  simp only [run_bind_ok, run_peek_ok] at h
  obtain ⟨found, mid, hfound, next, _, ⟨rfl, rfl⟩, h⟩ := h
  obtain ⟨⟨-, hall⟩, hmid⟩ := commaList_yields hitem hfound hts
  split at h
  · simp only [throw_bind, run_guard_ok, run_pure_ok] at h
    obtain ⟨-, rfl, rfl⟩ := h
    exact ⟨hall, hmid⟩
  · obtain ⟨rfl, rfl⟩ := run_pure_ok.mp h
    exact ⟨hall, hmid⟩

theorem readGroupBy_laid : Yields readGroupBy fun es => ∀ e ∈ es, IsLaid e := by
  intro ts rest es h hts
  unfold readGroupBy at h
  simp only [run_bind_ok, run_takeWord_ok, run_atWord_ok, throw_bind, run_bar_ok] at h
  obtain ⟨_, _, ⟨t, rfl, -⟩, _, _, ⟨-, rfl⟩, -, h⟩ := h
  obtain ⟨⟨-, hall⟩, hrest⟩ := commaList_yields readExpression_laid h hts.tail
  exact ⟨hall, hrest⟩

theorem IsHaving.laid {depth : Nat} {e : String} (h : IsHaving depth e) : IsLaid e ∧ e.isEmpty = false := by
  obtain ⟨t, ts, -, hspells, -⟩ := having_spelled h
  obtain ⟨u, us, hall, rfl, -⟩ := h
  exact ⟨⟨_, laid_rowText hall⟩, hspells.not_isEmpty⟩

theorem readOrderKey_laid : Yields readOrderKey fun k => IsLaid k.field := by
  intro ts rest k h hts
  rw [readOrderKey_eq] at h
  simp only [run_bind_ok, run_pure_ok] at h
  obtain ⟨field, _, hfield, d, _, hd, nulls, _, hnulls, rfl, rfl⟩ := h
  obtain ⟨hlaid, hmid⟩ := readExpression_laid hfield hts
  exact ⟨hlaid, readNulls_sound hnulls (readDirection_sound hd hmid)⟩

theorem readOrderBy_laid : Yields readOrderBy fun ks => ∀ k ∈ ks, IsLaid k.field := by
  intro ts rest ks h hts
  unfold readOrderBy at h
  simp only [run_bind_ok, run_takeWord_ok] at h
  obtain ⟨_, _, ⟨t, rfl, -⟩, h⟩ := h
  obtain ⟨⟨-, hall⟩, hrest⟩ := commaList_yields readOrderKey_laid h hts.tail
  exact ⟨hall, hrest⟩

structure ClausesLaid (q : QueryOf κ) : Prop where
  items : ∀ item ∈ q.items, ItemLaid item
  filter : ∀ f ∈ q.filter, FilterLaid f
  groupBy : ∀ e ∈ q.groupBy, IsLaid e
  having : ∀ e ∈ q.having, IsLaid e ∧ e.isEmpty = false
  orderBy : ∀ k ∈ q.orderBy, IsLaid k.field

theorem readQuery_laid (hin : Rereadable inside text clear legible) {ts rest : List Token} {q : QueryOf κ}
    (h : (readQuery inside).run ts = .ok (q, rest)) (hts : AllWhole ts) : ClausesLaid q := by
  unfold readQuery at h
  simp only [run_bind_ok, run_takeWord_ok, run_takeName_ok, throw_bind, run_bar_ok, run_atWord_ok,
    run_pure_ok] at h
  obtain ⟨_, _, ⟨t, rfl, -⟩, items, mid₁, hitems, _, mid₂, ⟨u, rfl, -⟩, object, mid₃, rfl, -, scope, mid₄,
    hscope, filter, mid₅, hfilter, _, _, ⟨-, rfl⟩, -, group, mid₆, hgroup, having, mid₇, hhaving, order, mid₈,
    horder, -, -, -, -, -, -, -, -, -, -, rfl, -⟩ := h
  -- Clause by clause, and behind each one whole tokens are left.
  obtain ⟨hitems, hwhole₁⟩ := readItems_all (readItem_laid hin) hitems hts.tail
  obtain ⟨-, hwhole₂⟩ := optional_yields readScope_yields hscope hwhole₁.tail.tail
  obtain ⟨hfilter, hwhole₃⟩ := optional_yields (readFilter_yields (composes_laid hin)) hfilter hwhole₂
  obtain ⟨hgroup, hwhole₄⟩ := optional_yields readGroupBy_laid hgroup hwhole₃
  obtain ⟨hwhole₅, hhaving⟩ := optionalHaving_sound hhaving hwhole₄
  obtain ⟨horder, -⟩ := optional_yields readOrderBy_laid horder hwhole₅
  refine ⟨hitems, hfilter, ?_, ?_, ?_⟩
  · cases group with
    | none => simp
    | some es => exact hgroup es rfl
  · intro e he
    obtain ⟨depth, hdepth, -⟩ := hhaving e he
    exact IsHaving.laid hdepth
  · cases order with
    | none => simp
    | some ks => exact horder ks rfl

theorem parse_laid {text : String} {q : Query} (h : parse text = .ok q) : ClausesLaid q := by
  obtain ⟨ts, -, hwhole, hread⟩ := parse_ok h
  exact readQuery_laid rereadable_inner hread hwhole

/-- A path that a text of tokens names is one of its field paths. -/
theorem IsLaid.mem_fieldPaths {expr path : String} (h : IsLaid expr) (hnames : Names expr path) :
    path ∈ fieldPaths expr := by
  obtain ⟨hpath, hword, before, after, htokens, hafter⟩ := hnames
  obtain ⟨ts, hlaid⟩ := h
  -- Lexing the text gives the tokens that it was made of.
  have hread : Token.ofText expr = .ok ts := hlaid.writes.lexes 0
  obtain rfl : ts = before ++ word path :: after := by simpa using hread.symm.trans htokens
  have hmem := hlaid.mem_dottedPaths hpath hafter
  refine List.mem_filter.mpr ⟨List.mem_map.mpr ⟨path.toList, hmem, String.ofList_toList⟩, ?_⟩
  simpa using hword

/-- The references of a query, clause by clause. -/
theorem references_eq (q : QueryOf κ) : q.references =
    (q.items.flatMap SelectItem.fieldPaths).map (⟨.select, ·⟩) ++
      ((q.texts .filter).flatMap fieldPaths).map (⟨.filter, ·⟩) ++
      ((q.texts .group).flatMap fieldPaths).map (⟨.group, ·⟩) ++
      ((q.texts .order).flatMap fieldPaths).map (⟨.order, ·⟩) := by
  simp only [QueryOf.references, QueryOf.texts, List.flatMap_map]

namespace ClausesLaid

variable {q : QueryOf κ} (h : ClausesLaid q)

include h

/-- Every clause names fields in texts of tokens. -/
theorem texts {clause : Clause} {expr : String} (hexpr : expr ∈ q.texts clause) : IsLaid expr := by
  cases clause with
  | select =>
    obtain ⟨item, hitem, hexpr⟩ := List.mem_flatMap.mp hexpr
    have hlaid := h.items item hitem
    cases item with
    | field path a =>
      obtain rfl : expr = path := List.mem_singleton.mp hexpr
      exact ⟨_, laid_word hlaid⟩
    | call name args a => exact IsLaid.of_arguments hlaid.2 expr hexpr
    | child => cases hexpr
    | typeOf => cases hexpr
  | filter =>
    obtain ⟨l, hl, rfl⟩ := List.mem_map.mp hexpr
    unfold QueryOf.leaves at hl
    split at hl
    · rename_i f hf
      exact (h.filter f hf l hl).1
    · cases hl
  | group => exact h.groupBy expr hexpr
  | order =>
    obtain ⟨k, hk, rfl⟩ := List.mem_map.mp hexpr
    exact h.orderBy k hk

/-- A path that a select item names is collected from it. -/
theorem mem_itemPaths {expr path : String} (hexpr : expr ∈ q.texts .select) (hnames : Names expr path) :
    path ∈ q.items.flatMap SelectItem.fieldPaths := by
  obtain ⟨item, hitem, hexpr⟩ := List.mem_flatMap.mp hexpr
  have hlaid := h.items item hitem
  refine List.mem_flatMap.mpr ⟨item, hitem, ?_⟩
  cases item with
  | field name a =>
    -- The name is a token of its own, so that it is the only path in its text.
    obtain rfl : expr = name := List.mem_singleton.mp hexpr
    obtain ⟨-, -, before, after, htokens, -⟩ := hnames
    have hone : Token.ofText expr = .ok [word expr] := (laid_word hlaid).writes.lexes 0
    have heq : before ++ word path :: after = [word expr] := by simpa using htokens.symm.trans hone
    have hmem : word path ∈ [word expr] := by simp [← heq]
    have hpath : path = expr := congrArg Token.text (List.mem_singleton.mp hmem)
    simp [SelectItem.fieldPaths, hpath]
  | call name args a =>
    have hargument := IsLaid.of_arguments hlaid.2 expr hexpr
    exact List.mem_flatMap.mpr ⟨expr, hexpr, hargument.mem_fieldPaths hnames⟩
  | child => cases hexpr
  | typeOf => cases hexpr

/-- A path that a clause names is among the references of the query. -/
theorem mem_references {clause : Clause} {expr path : String} (hexpr : expr ∈ q.texts clause)
    (hnames : Names expr path) : ⟨clause, path⟩ ∈ q.references := by
  have hcollected : path ∈ (q.texts clause).flatMap fieldPaths :=
    List.mem_flatMap.mpr ⟨expr, hexpr, (h.texts hexpr).mem_fieldPaths hnames⟩
  rw [references_eq]
  simp only [List.mem_append]
  cases clause with
  | select => exact .inl (.inl (.inl (List.mem_map_of_mem (h.mem_itemPaths hexpr hnames))))
  | filter => exact .inl (.inl (.inr (List.mem_map_of_mem hcollected)))
  | group => exact .inl (.inr (List.mem_map_of_mem hcollected))
  | order => exact .inr (List.mem_map_of_mem hcollected)

theorem sigmaFree {r : Reference} (hr : r ∈ q.references) : SigmaFree r.path := by
  have hpaths {exprs : List String} (hpath : r.path ∈ exprs.flatMap fieldPaths) : SigmaFree r.path := by
    obtain ⟨expr, -, hmem⟩ := List.mem_flatMap.mp hpath
    exact sigmaFree_of_isPath (isPath_of_mem_fieldPaths hmem)
  rw [references_eq] at hr
  simp only [List.mem_append, or_assoc] at hr
  rcases hr with hr | hr | hr | hr <;> obtain ⟨path, hpath, rfl⟩ := List.mem_map.mp hr
  · obtain ⟨item, hitem, hpath⟩ := List.mem_flatMap.mp hpath
    have hlaid := h.items item hitem
    cases item with
    | field name a =>
      obtain rfl : path = name := List.mem_singleton.mp hpath
      exact sigmaFree_of_whole hlaid
    | call name args a => exact hpaths hpath
    | child => cases hpath
    | typeOf => cases hpath
  · exact hpaths hpath
  · exact hpaths hpath
  · exact hpaths hpath

end ClausesLaid

end Query

end Soql
