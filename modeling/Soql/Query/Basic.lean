import Soql.Text.Path
import Soql.Text.Quoted
import Soql.Vocabulary

/-!
Queries. A query may hold queries of its own, for child records and as the right side of a semi-join;
those hold none. So a query is described over the type of the queries inside it, which is empty on
the inner level.
-/

namespace Soql

structure Alias where
  name : String
  /-- the keyword between item and name is written -/
  withAs : Bool := false
  deriving DecidableEq, Repr, Inhabited

structure TypeBranch where
  object : String
  fields : List String
  deriving DecidableEq, Repr, Inhabited

inductive SelectItem (κ : Type) where
  | field (path : String) (alias? : Option Alias)
  | call (name : String) (args : List String) (alias? : Option Alias)
  | child (query : κ)
  | typeOf (relationship : String) (branches : List TypeBranch) (otherwise : List String)
  deriving DecidableEq, Inhabited

inductive Operator where
  | equal | unequal | angled | less | atMost | greater | atLeast
  | like | isIn | notIn | includes | excludes
  deriving DecidableEq, Repr, Inhabited

def Operator.text : Operator → String
  | equal => "="
  | unequal => "!="
  | angled => "<>"
  | less => "<"
  | atMost => "<="
  | greater => ">"
  | atLeast => ">="
  | like => "LIKE"
  | isIn => "IN"
  | notIn => "NOT IN"
  | includes => "INCLUDES"
  | excludes => "EXCLUDES"

/-- A comparison of a field, or of a function of fields, with a value or a list of values. -/
structure Comparison where
  field : String
  operator : Operator
  value : String
  deriving DecidableEq, Repr, Inhabited

def Comparison.isBind (c : Comparison) : Bool :=
  Text.beginsWith c.value ":"

def Comparison.literals (c : Comparison) : List String :=
  Text.literalsOf c.value

structure SemiJoin (κ : Type) where
  field : String
  query : κ
  negated : Bool := false
  deriving DecidableEq, Inhabited

inductive Leaf (κ : Type) where
  | compare (comparison : Comparison)
  | semiJoin (join : SemiJoin κ)
  deriving DecidableEq, Inhabited

def Leaf.field {κ : Type} : Leaf κ → String
  | compare c => c.field
  | semiJoin j => j.field

def Leaf.withField {κ : Type} (field : String) : Leaf κ → Leaf κ
  | compare c => compare { c with field }
  | semiJoin j => semiJoin { j with field }

inductive Connective where
  | all | any
  deriving DecidableEq, Repr, Inhabited

def Connective.text : Connective → String
  | all => "AND"
  | any => "OR"

inductive Filter (κ : Type) where
  | leaf (leaf : Leaf κ)
  | combine (connective : Connective) (operands : List (Filter κ))
  | negation (operand : Filter κ)
  deriving Inhabited

namespace Filter

variable {κ : Type}

mutual

def decideEq [DecidableEq κ] : (a b : Filter κ) → Decidable (a = b)
  | leaf a, leaf b =>
    if h : a = b then isTrue (by rw [h]) else isFalse fun e => h (Filter.leaf.inj e)
  | combine a as, combine b bs =>
    if h : a = b then
      match decideEqList as bs with
      | isTrue hs => isTrue (by rw [h, hs])
      | isFalse hs => isFalse fun e => hs (Filter.combine.inj e).2
    else isFalse fun e => h (Filter.combine.inj e).1
  | negation a, negation b =>
    match decideEq a b with
    | isTrue h => isTrue (by rw [h])
    | isFalse h => isFalse fun e => h (Filter.negation.inj e)
  | leaf _, combine _ _ => isFalse nofun
  | leaf _, negation _ => isFalse nofun
  | combine _ _, leaf _ => isFalse nofun
  | combine _ _, negation _ => isFalse nofun
  | negation _, leaf _ => isFalse nofun
  | negation _, combine _ _ => isFalse nofun

def decideEqList [DecidableEq κ] : (as bs : List (Filter κ)) → Decidable (as = bs)
  | [], [] => isTrue rfl
  | [], _ :: _ => isFalse nofun
  | _ :: _, [] => isFalse nofun
  | a :: as, b :: bs =>
    match decideEq a b with
    | isFalse h => isFalse fun e => h (List.cons.inj e).1
    | isTrue h =>
      match decideEqList as bs with
      | isTrue hs => isTrue (by rw [h, hs])
      | isFalse hs => isFalse fun e => hs (List.cons.inj e).2

end

instance [DecidableEq κ] : DecidableEq (Filter κ) := decideEq

mutual

def leaves : Filter κ → List (Leaf κ)
  | leaf l => [l]
  | combine _ operands => leavesOfAll operands
  | negation operand => operand.leaves

def leavesOfAll : List (Filter κ) → List (Leaf κ)
  | [] => []
  | f :: rest => f.leaves ++ leavesOfAll rest

end

mutual

def mapLeaves (change : Leaf κ → Leaf κ) : Filter κ → Filter κ
  | leaf l => leaf (change l)
  | combine c operands => combine c (mapAllLeaves change operands)
  | negation operand => negation (operand.mapLeaves change)

def mapAllLeaves (change : Leaf κ → Leaf κ) : List (Filter κ) → List (Filter κ)
  | [] => []
  | f :: rest => f.mapLeaves change :: mapAllLeaves change rest

end

mutual

def uses (connective : Connective) : Filter κ → Bool
  | leaf _ => false
  | combine c operands => c == connective || anyUses connective operands
  | negation operand => operand.uses connective

def anyUses (connective : Connective) : List (Filter κ) → Bool
  | [] => false
  | f :: rest => f.uses connective || anyUses connective rest

end

end Filter

inductive Direction where
  | ascending | descending
  deriving DecidableEq, Repr, Inhabited

def Direction.text : Direction → String
  | ascending => "ASC"
  | descending => "DESC"

inductive NullsPlace where
  | first | last
  deriving DecidableEq, Repr, Inhabited

def NullsPlace.text : NullsPlace → String
  | first => "FIRST"
  | last => "LAST"

structure OrderKey where
  field : String
  direction : Direction := .ascending
  nulls : Option NullsPlace := none
  deriving DecidableEq, Repr, Inhabited

structure QueryOf (κ : Type) where
  object : String
  items : List (SelectItem κ) := []
  scope : Option String := none
  filter : Option (Filter κ) := none
  groupBy : List String := []
  having : Option String := none
  orderBy : List OrderKey := []
  limit : Option Int := none
  offset : Option Nat := none
  /-- the query was put together from the words of a text that is no query -/
  tolerant : Bool := false
  deriving DecidableEq, Inhabited

abbrev InnerQuery := QueryOf Empty

abbrev Query := QueryOf InnerQuery

def isAggregateName (name : String) : Bool :=
  Vocabulary.aggregates.contains (Text.lower name)

namespace QueryOf

variable {κ : Type} (q : QueryOf κ)

def leaves : List (Leaf κ) :=
  match q.filter with
  | some f => f.leaves
  | none => []

def comparisons : List Comparison :=
  q.leaves.filterMap fun
    | .compare c => some c
    | .semiJoin _ => none

def semiJoins : List (SemiJoin κ) :=
  q.leaves.filterMap fun
    | .semiJoin j => some j
    | .compare _ => none

def aggregateNames : List String :=
  q.items.filterMap fun
    | .call name _ _ => if isAggregateName name then some name else none
    | _ => none

def hasAggregates : Bool :=
  !q.aggregateNames.isEmpty

def children : List κ :=
  q.items.filterMap fun
    | .child c => some c
    | _ => none

def typeOfs : List (String × List TypeBranch) :=
  q.items.filterMap fun
    | .typeOf relationship branches _ => some (relationship, branches)
    | _ => none

def uses (connective : Connective) : Bool :=
  q.filter.any (·.uses connective)

end QueryOf

end Soql
