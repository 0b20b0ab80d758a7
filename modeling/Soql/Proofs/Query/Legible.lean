import Soql.Proofs.Query.Arguments
import Soql.Proofs.Query.Values
import Soql.Proofs.Query.Counts

/-!
Queries whose text is read as the query again. Each part of such a query is a text of its own kind,
and no part can be taken for another one where it stands.
-/

namespace Soql

open Text Token Query

def namesSelect (e : String) : Bool :=
  let capitals := e.map Char.toUpper
  capitals == "SELECT" || beginsWith capitals "SELECT("

/-- The last argument of a select item is not empty, and the query inside it fulfils a condition. -/
def SelectItem.isClear {κ : Type} (inner : κ → Bool) : SelectItem κ → Bool
  | .field _ _ => true
  | .call _ args _ => args.getLast? != some ""
  | .child q => inner q
  | .typeOf _ _ _ => true

/-- The left side of a condition ends in no empty argument and is not named like the word that starts
a query, and the query on its right side fulfils a condition. -/
def Leaf.isClear {κ : Type} (inner : κ → Bool) : Leaf κ → Bool
  | .compare c => !endsEmpty c.field && !namesSelect c.field
  | .semiJoin j => !endsEmpty j.field && !namesSelect j.field && inner j.query

/-- No call of a query ends in an empty argument, and no condition is on something named like the
word that starts a query. -/
def QueryOf.isClear {κ : Type} (inner : κ → Bool) (q : QueryOf κ) : Bool :=
  q.items.all (·.isClear inner) && q.leaves.all (·.isClear inner) &&
    q.groupBy.all (!endsEmpty ·) && q.orderBy.all (!endsEmpty ·.field)

def InnerQuery.isClear (q : InnerQuery) : Bool :=
  QueryOf.isClear Empty.elim q

def Query.isClear (q : Query) : Bool :=
  QueryOf.isClear InnerQuery.isClear q

structure Selectable (name : String) : Prop where
  whole : (word name).Whole
  clause : clauseWords.contains (word name).upper = false
  typeOf : (word name).upper ≠ "TYPEOF"

structure BareAlias (name : String) : Prop where
  clause : clauseWords.contains (word name).upper = false
  point : name.toList.contains '.' = false
  keyword : (word name).upper ≠ "AS"

/-- The name of a select item; only a call has one without the keyword. -/
def Named (afterCall : Bool) (alias? : Option Alias) : Prop :=
  ∀ a ∈ alias?, (word a.name).Whole ∧ (a.withAs = true ∨ afterCall = true ∧ BareAlias a.name)

def AllNames (names : List String) : Prop :=
  ∀ name ∈ names, (word name).Whole

structure TypeBranch.Legible (b : TypeBranch) : Prop where
  object : (word b.object).Whole
  fields : AllNames b.fields
  some : b.fields ≠ []

def SelectItem.Legible {κ : Type} (inner : κ → Prop) : SelectItem κ → Prop
  | .field path alias? => Selectable path ∧ Named false alias?
  | .call name args alias? =>
    Selectable name ∧ IsArguments args ∧ args.getLast? ≠ some "" ∧ Named true alias?
  | .child q => inner q
  | .typeOf relationship branches otherwise => (word relationship).Whole ∧ branches ≠ [] ∧
    (∀ b ∈ branches, b.Legible) ∧ AllNames otherwise

def ConditionOn (field : String) : Prop :=
  ∃ name, Expression name field ∧ ["NOT", "EXISTS", "SELECT"].contains (word name).upper = false

def ValueFits : Operator → String → Prop
  | .isIn, v | .notIn, v => ∃ first, first ≠ "SELECT" ∧ IsValueList first v
  | .includes, v | .excludes, v => ∃ first, IsValueList first v
  | _, v => IsValue v

def Leaf.Legible {κ : Type} (inner : κ → Prop) : Leaf κ → Prop
  | .compare c => ConditionOn c.field ∧ ValueFits c.operator c.value
  | .semiJoin j => ConditionOn j.field ∧ inner j.query

inductive Filter.Legible {κ : Type} (inner : κ → Prop) : Filter κ → Prop
  | leaf {l : Leaf κ} (h : l.Legible inner) : Legible inner (.leaf l)
  | combine {c : Connective} {f g : Filter κ} {others : List (Filter κ)}
    (h : ∀ operand ∈ f :: g :: others, Legible inner operand) :
    Legible inner (.combine c (f :: g :: others))
  | negation {f : Filter κ} (h : Legible inner f) : Legible inner (.negation f)

def endsClause (t : Token) : Bool :=
  t.isWord ["ORDER", "LIMIT", "OFFSET", "FOR"] || t.isMark ")"

def IsHaving (depth : Nat) (h : String) : Prop :=
  ∃ t ts, AllWhole (t :: ts) ∧ h = rowText (t :: ts) ∧ walk endsClause 0 (t :: ts) = some depth

/-- The expressions of a grouping that are read again, the first of them being no grouping set. -/
def Groups (es : List String) : Prop :=
  (∀ e ∈ es, ∃ name, Expression name e) ∧ ∀ e ∈ es.head?, ∃ name, Expression name e ∧
    ["ROLLUP", "CUBE"].contains (word name).upper = false

/-- A query that is read again where nothing follows it, or, unless the end is not there, a closing
parenthesis. A condition on groups that leaves a parenthesis open is the last clause of a text. -/
structure QueryOf.Legible {κ : Type} (inner : κ → Prop) (atEnd : Prop) (q : QueryOf κ) : Prop where
  object : (word q.object).Whole ∧ q.object.toList.contains '.' = false
  items : q.items ≠ [] ∧ ∀ item ∈ q.items, item.Legible inner
  scope : ∀ s ∈ q.scope, (word s).Whole
  filter : ∀ f ∈ q.filter, f.Legible inner
  groupBy : Groups q.groupBy
  having : ∀ h ∈ q.having, ∃ depth, IsHaving depth h ∧
    (depth = 0 ∨ atEnd ∧ q.orderBy = [] ∧ q.limit = none ∧ q.offset = none)
  orderBy : ∀ k ∈ q.orderBy, ∃ name, Expression name k.field
  limit : ∀ n ∈ q.limit, ∃ count : Nat, n = count ∧ IsCount count
  offset : ∀ n ∈ q.offset, IsCount n
  tolerant : q.tolerant = false

theorem QueryOf.Legible.mono {κ : Type} {inner : κ → Prop} {atEnd atEnd' : Prop} {q : QueryOf κ}
    (h : q.Legible inner atEnd) (hend : atEnd → atEnd') : q.Legible inner atEnd' := by
  refine { h with having := ?_ }
  intro text htext
  obtain ⟨depth, hdepth, hzero | ⟨hatEnd, hlast⟩⟩ := h.having text htext
  · exact ⟨depth, hdepth, Or.inl hzero⟩
  · exact ⟨depth, hdepth, Or.inr ⟨hend hatEnd, hlast⟩⟩

end Soql
