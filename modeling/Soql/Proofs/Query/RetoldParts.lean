import Soql.Proofs.Query.Filters
import Soql.Proofs.Query.Retelling

namespace Soql.Query

open Text Token

variable {κ : Type}

section Items

/-- A name after something is written with it. -/
theorem Retold.alias {afterCall : Bool} {before ts rest : List Token} {expr : String} {a : Option Alias}
    (h : Retold before ts expr) (hts : AllWhole ts) (hread : (readAlias afterCall).run ts = .ok (a, rest)) :
    Retold before rest (Alias.render expr a) := by
  unfold readAlias at hread
  simp only [run_bind_ok, run_atWord_ok] at hread
  obtain ⟨isAs, _, ⟨hisAs, rfl⟩, hread⟩ := hread
  split at hread
  case isTrue has =>
    simp only [run_bind_ok, run_take_ok, run_takeName_ok, run_pure_ok] at hread
    obtain ⟨t, _, rfl, name, after, rfl, rfl, rfl⟩ := hread
    have hupper : t.upper = "AS" := upper_of_isWord (hisAs.trans has)
    have hname := (Retold.token hts.tail.head after).after_word hts.head (by decide) hupper
    exact (h.space hname).of_toList (by simp [Alias.render])
  case isFalse =>
    simp only [run_bind_ok, run_peek_ok] at hread
    obtain ⟨next, _, ⟨rfl, rfl⟩, hread⟩ := hread
    split at hread
    case h_1 t hhead =>
      split at hread
      case isTrue =>
        split at hread
        case isTrue =>
          simp only [run_bind_ok, run_take_ok, run_pure_ok] at hread
          obtain ⟨u, after, rfl, rfl, rfl⟩ := hread
          obtain rfl : u = t := by simpa using hhead
          exact h.space (Retold.token hts.head after)
        case isFalse => exact absurd hread run_throw_ok
      case isFalse =>
        obtain ⟨rfl, rfl⟩ := run_pure_ok.mp hread
        exact h
    case h_2 =>
      obtain ⟨rfl, rfl⟩ := run_pure_ok.mp hread
      exact h

theorem readNames_retells : Retells readNames fun names => joined ", " names := by
  intro ts rest names h hts
  have hnames := commaList_retells (takeName_retells "field") h hts
  simpa using hnames

theorem readBranches_retells (fuel : Nat) :
    RetellsAll (readBranches fuel) fun branches => branches.map TypeBranch.render := by
  induction fuel with
  | zero =>
    intro ts rest branches h hts
    obtain ⟨rfl, rfl⟩ := run_pure_ok.mp h
    exact RetoldAll.nil ts
  | succ fuel ih =>
    intro ts rest branches h hts
    rw [readBranches] at h
    simp only [run_bind_ok, run_atWord_ok] at h
    obtain ⟨here, _, ⟨hhere, rfl⟩, h⟩ := h
    split at h
    case isTrue hwhen =>
      simp only [run_bind_ok, run_take_ok, run_takeName_ok, run_takeWord_ok, run_pure_ok] at h
      obtain ⟨w, _, rfl, object, _, rfl, _, tail, ⟨w', rfl, hthen⟩, fields, mid, hfields, others, _, hothers,
        rfl, rfl⟩ := h
      have hupper : w.upper = "WHEN" := upper_of_isWord (hhere.trans hwhen)
      have hnames := readNames_retells hfields hts.tail.tail.tail
      have hmid := hnames.whole hts.tail.tail.tail
      have hobject := (Retold.token hts.tail.head (w' :: tail)).after_word hts.head (by decide) hupper
      have hbranch := hobject.space (hnames.after_word hts.tail.tail.head (by decide) hthen)
      have hrender : Retold _ mid (TypeBranch.render ⟨object, fields⟩) :=
        hbranch.of_toList (by simp [TypeBranch.render])
      exact hrender.all.append (ih hothers hmid)
    case isFalse =>
      obtain ⟨rfl, rfl⟩ := run_pure_ok.mp h
      exact RetoldAll.nil ts

theorem readOtherwise_retells : RetellsAll readOtherwise fun otherwise =>
    if otherwise.isEmpty then [] else ["ELSE " ++ joined ", " otherwise] := by
  intro ts rest names h hts
  unfold readOtherwise at h
  simp only [run_bind_ok, run_atWord_ok] at h
  obtain ⟨here, _, ⟨hhere, rfl⟩, h⟩ := h
  split at h
  case isTrue helse =>
    simp only [run_bind_ok, run_take_ok] at h
    obtain ⟨t, _, rfl, hnames⟩ := h
    obtain ⟨⟨hne, -⟩, -⟩ := readNames_yields hnames hts.tail
    have hupper : t.upper = "ELSE" := upper_of_isWord (hhere.trans helse)
    have hall := (readNames_retells hnames hts.tail).after_word hts.head (by decide) hupper
    simp only [List.isEmpty_iff, hne, if_false]
    exact hall.all
  case isFalse =>
    obtain ⟨rfl, rfl⟩ := run_pure_ok.mp h
    exact RetoldAll.nil ts

theorem readTypeOf_retells (text : κ → String) :
    Retells (readTypeOf : Reader (SelectItem κ)) (SelectItem.render text) := by
  intro ts rest item h hts
  rw [readTypeOf_eq] at h
  simp only [run_bind_ok, run_takeWord_ok, run_takeName_ok, run_get_ok, throw_bind, run_bar_ok,
    run_pure_ok, List.isEmpty_iff] at h
  obtain ⟨_, _, ⟨w, rfl, htypeOf⟩, relationship, tail, rfl, _, _, ⟨rfl, rfl⟩, branches, mid, hbranches,
    otherwise, after, hotherwise, _, last, ⟨w', rfl, hend⟩, -, rfl, rfl⟩ := h
  have hfirst := (Retold.token hts.tail.head tail).after_word hts.head (by decide) htypeOf
  have hall := readBranches_retells _ hbranches hts.tail.tail
  have hmid := hall.whole hts.tail.tail
  have helse := readOtherwise_retells hotherwise hmid
  have hafter := helse.whole hmid
  have hlast : Retold (w' :: last) last "END" := .reserved hafter.head (by decide) hend last
  exact ((hfirst.all.append hall).append helse |>.append hlast.all).joined

/-- What stands in place of an inner query is said again by its text with a closing parenthesis. -/
structure RetellsInside (inside : Inside κ) (text : κ → String) : Prop where
  child : Retells inside.child fun q => text q ++ ")"
  semiJoin : Retells inside.semiJoin fun q => text q ++ ")"

variable {inside : Inside κ} {text : κ → String}

theorem readItem_retells (hin : RetellsInside inside text) : Retells (readItem inside) (SelectItem.render text) := by
  intro ts rest item h hts
  cases itemRead_of_run h with
  | child heq hq =>
    subst heq
    have hchild := (hin.child hq hts.tail).after_opening
    rwa [← String.append_assoc] at hchild
  | typeOf hitem => exact readTypeOf_retells text hitem hts
  | call heq hname hargs ha =>
    subst heq
    have hinside := readArguments_retells hargs hts.tail
    exact (hinside.callText hts.head).alias (hinside.whole hts.tail) ha
  | @field name after a heq hname ha =>
    subst heq
    exact (Retold.token hts.head after).alias hts.tail ha

end Items

section Filters

variable {inside : Inside κ} {text : κ → String} {before ts rest : List Token} {field : String} {l : Leaf κ}

/-- A test of membership goes on with what was said before it. -/
theorem Retold.membership (negated : Bool) (hin : RetellsInside inside text)
    (hbefore : Retold before ts (field ++ " " ++ if negated then "NOT IN" else "IN")) (hts : AllWhole ts)
    (h : (readMembership inside field negated).run ts = .ok (l, rest)) : Retold before rest (l.render text) := by
  unfold readMembership at h
  simp only [run_bind_ok, run_takeMark_ok, run_atWord_ok] at h
  obtain ⟨_, mid, rfl, _, _, ⟨-, rfl⟩, h⟩ := h
  split at h
  -- The parenthesis in front of a query is kept; a list is written with its own.
  · simp only [run_bind_ok, run_pure_ok] at h
    obtain ⟨q, _, hq, rfl, rfl⟩ := h
    have hquery := (hin.semiJoin hq hts.tail).after_opening
    apply (hbefore.space hquery).of_toList
    cases negated <;> simp [Leaf.render]
  · simp only [run_bind_ok, run_pure_ok] at h
    obtain ⟨v, _, hv, rfl, rfl⟩ := h
    have hlist := (readValueList_retells hv hts.tail).drop_opening
    apply (hbefore.space hlist).of_toList
    cases negated <;> simp [Leaf.render, Operator.text]

/-- A test goes on with the field that was read before it. -/
theorem Retold.test (hin : RetellsInside inside text) (hfield : Retold before ts field) (hts : AllWhole ts)
    (h : (readTest inside field).run ts = .ok (l, rest)) : Retold before rest (l.render text) := by
  unfold readTest at h
  simp only [run_bind_ok, run_take_ok] at h
  obtain ⟨t, mid, rfl, h⟩ := h
  have ht := hts.head
  -- The operator is retold between the field, which was retold before, and what follows it.
  have hmid := hts.tail
  split at h
  case isTrue hkind =>
    simp only [run_bind_ok, run_pure_ok] at h
    obtain ⟨v, _, hv, rfl, rfl⟩ := h
    have htest := (hfield.space (.token ht mid)).space (readValue_retells hv hmid)
    rwa [← symbolOperator_of_whole ht (eq_of_beq hkind)] at htest
  split at h
  case isTrue hlike =>
    simp only [run_bind_ok, run_pure_ok] at h
    obtain ⟨v, _, hv, rfl, rfl⟩ := h
    have hword : Retold (t :: mid) mid "LIKE" := .reserved ht (by decide) (eq_of_beq hlike) mid
    exact (hfield.space hword).space (readValue_retells hv hmid)
  split at h
  case isTrue hisIn =>
    have hword : Retold (t :: mid) mid "IN" := .reserved ht (by decide) (eq_of_beq hisIn) mid
    exact Retold.membership false hin (hfield.space hword) hmid h
  split at h
  case isTrue hnot =>
    simp only [run_bind_ok, run_takeWord_ok] at h
    obtain ⟨_, last, ⟨w, rfl, hw⟩, h⟩ := h
    have hword : Retold (w :: last) last "IN" := .reserved hmid.head (by decide) hw last
    have hwords := hword.after_word ht (by decide) (eq_of_beq hnot)
    exact Retold.membership true hin (hfield.space hwords) hmid.tail h
  split at h
  case isTrue hmultiple =>
    simp only [run_bind_ok, run_takeMark_ok, run_pure_ok] at h
    obtain ⟨_, last, rfl, v, _, hv, rfl, rfl⟩ := h
    have hlist := (readValueList_retells hv hmid.tail).drop_opening
    have hupper : t.upper = "INCLUDES" ∨ t.upper = "EXCLUDES" := by simpa using hmultiple
    rcases hupper with hupper | hupper
    · have hword := hfield.space (.reserved ht (by decide) hupper (opening :: last))
      simpa [Leaf.render, hupper, Operator.text] using hword.space hlist
    · have hword := hfield.space (.reserved ht (by decide) hupper (opening :: last))
      simpa [Leaf.render, hupper, Operator.text] using hword.space hlist
  split at h
  · exact absurd h run_throw_ok
  · exact absurd h run_throw_ok

theorem readLeaf_retells (hin : RetellsInside inside text) : Retells (readLeaf inside) (Leaf.render text) := by
  intro ts rest l h hts
  rw [readLeaf_eq, run_bind_ok] at h
  obtain ⟨field, mid, hfield, htest⟩ := h
  have hretold := readExpression_retells hfield hts
  exact hretold.test hin (hretold.whole hts) htest

/-- What is read as a filter is said again by its text, where it stands by itself and where it is an
operand. -/
def RetellsFilter (r : Reader (Filter κ)) (text : κ → String) : Prop :=
  ∀ nested, Retells r (Filter.render text nested)

theorem combined_of_not_single {c : Connective} {fs : List (Filter κ)} (h : ∀ f, fs ≠ [f]) :
    combined c fs = .combine c fs := by
  rw [combined]
  exact h

theorem readCombined_retells {c : Connective} {operand : Reader (Filter κ)} (h : RetellsFilter operand text) :
    RetellsFilter (readCombined c operand) text := by
  intro nested ts rest f hrun hts
  unfold readCombined at hrun
  simp only [run_bind_ok, run_get_ok, run_pure_ok] at hrun
  obtain ⟨_, _, ⟨rfl, rfl⟩, fs, after, hfs, rfl, rfl⟩ := hrun
  have hident : isIdent c.text = true := by cases c <;> decide
  have hsep : ∀ t : Token, t.Whole → t.isWord [c.text] = true → t.folded = (word c.text).folded := by
    intro t ht hword
    rw [ht.folded_eq (reserved_connective c) (upper_of_isWord hword), folded_reserved (reserved_connective c)]
  -- A single operand stands where the whole would; several stand inside a combination.
  by_cases hsingle : ∃ f, fs = [f]
  case pos =>
    obtain ⟨f, rfl⟩ := hsingle
    obtain ⟨front, rows, rfl, -, hrows, halike⟩ := separated_retells (h nested) hsep _ hfs hts
    obtain ⟨row, hrow, rfl⟩ : ∃ row, Writes (f.render text nested) row ∧ rows = [row] := by
      simpa [List.forall₂_cons_left_iff] using hrows
    rw [List.intercalate_singleton] at halike
    exact ⟨front, row, rfl, hrow, halike⟩
  case neg =>
    obtain ⟨front, rows, rfl, -, hrows, halike⟩ := separated_retells (h true) hsep _ hfs hts
    rw [← renderAll_eq] at hrows
    have hall : Retold (front ++ after) after (joined (" " ++ c.text ++ " ") (Filter.renderAll text fs)) :=
      ⟨front, _, rfl, writes_joined_word hident hrows, halike⟩
    rw [combined_of_not_single (by simpa using hsingle)]
    cases nested with
    | false => exact hall
    | true => exact hall.parenthesized

theorem readAlternatives_retells {operand : Reader (Filter κ)} (h : RetellsFilter operand text) :
    RetellsFilter (readAlternatives operand) text :=
  readCombined_retells (readCombined_retells h)

/-- By induction on the nesting that the fuel bounds. -/
theorem readOperand_retells (hin : RetellsInside inside text) (fuel : Nat) :
    RetellsFilter (readOperand inside fuel) text := by
  induction fuel with
  | zero =>
    intro nested ts rest f h
    exact absurd h run_throw_ok
  | succ fuel ih =>
    intro nested ts rest f h hts
    rw [readOperand] at h
    simp only [run_bind_ok, run_atWord_ok] at h
    obtain ⟨not?, _, ⟨hnot, rfl⟩, h⟩ := h
    split at h
    case isTrue hisNot =>
      simp only [run_bind_ok, run_take_ok, run_pure_ok] at h
      obtain ⟨t, _, rfl, operand, _, hoperand, rfl, rfl⟩ := h
      have hupper : t.upper = "NOT" := upper_of_isWord (hnot.trans hisNot)
      have hnegation := (ih false hoperand hts.tail).parenthesized.after_word hts.head (by decide) hupper
      exact hnegation.of_toList (by simp [Filter.render])
    case isFalse =>
      simp only [run_bind_ok, run_atMark_ok] at h
      obtain ⟨open?, _, ⟨hopen, rfl⟩, h⟩ := h
      split at h
      -- The parentheses around a filter are not those it is written with.
      case isTrue hparenthesis =>
        simp only [run_bind_ok, run_get_ok, throw_bind, run_bar_ok, run_take_ok, run_takeMark_ok,
          run_pure_ok] at h
        obtain ⟨_, _, ⟨rfl, rfl⟩, -, t, _, rfl, g, _, hg, _, _, rfl, rfl, rfl⟩ := h
        obtain rfl : t = opening := isMark_iff.mp (hopen.trans hparenthesis)
        exact (readAlternatives_retells ih nested hg hts.tail).drop_closing.drop_opening
      case isFalse =>
        simp only [run_bind_ok, run_atWord_ok, run_bar_ok, run_pure_ok] at h
        obtain ⟨_, _, ⟨-, rfl⟩, -, l, _, hl, rfl, rfl⟩ := h
        exact readLeaf_retells hin hl hts

theorem readFilter_retells (hin : RetellsInside inside text) : RetellsFilter (readFilter inside) text := by
  intro nested ts rest f h hts
  unfold readFilter at h
  simp only [run_bind_ok, run_get_ok] at h
  obtain ⟨_, _, ⟨rfl, rfl⟩, h⟩ := h
  exact readAlternatives_retells (readOperand_retells hin _) nested h hts

end Filters

end Soql.Query
