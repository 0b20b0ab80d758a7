import Soql.Decimal.Reading
import Soql.Query.Basic

namespace Soql

open Text

def Alias.render (expr : String) : Option Alias → String
  | none => expr
  | some a => if a.withAs then expr ++ " AS " ++ a.name else expr ++ " " ++ a.name

def Alias.bare (a : Alias) : Alias :=
  { a with withAs := false }

def callText (name : String) (args : List String) : String :=
  name ++ "(" ++ joined ", " args ++ ")"

def TypeBranch.render (b : TypeBranch) : String :=
  "WHEN " ++ b.object ++ " THEN " ++ joined ", " b.fields

def SelectItem.render {κ : Type} (inner : κ → String) : SelectItem κ → String
  | field path a => Alias.render path a
  | call name args a => Alias.render (callText name args) a
  | child q => "(" ++ inner q ++ ")"
  | typeOf relationship branches otherwise =>
    joined " " (("TYPEOF " ++ relationship) :: branches.map TypeBranch.render ++
      (if otherwise.isEmpty then [] else ["ELSE " ++ joined ", " otherwise]) ++ ["END"])

def SelectItem.withoutAs {κ : Type} : SelectItem κ → SelectItem κ
  | field path a => field path (a.map Alias.bare)
  | call name args a => call name args (a.map Alias.bare)
  | item => item

def Leaf.render {κ : Type} (inner : κ → String) : Leaf κ → String
  | compare c => c.field ++ " " ++ c.operator.text ++ " " ++ c.value
  | semiJoin j => j.field ++ (if j.negated then " NOT IN (" else " IN (") ++ inner j.query ++ ")"

namespace Filter

variable {κ : Type}

mutual

/-- A filter; inside another one a combination stands in parentheses. -/
def render (inner : κ → String) (nested : Bool) : Filter κ → String
  | leaf l => l.render inner
  | combine c operands =>
    let text := joined (" " ++ c.text ++ " ") (renderAll inner operands)
    if nested then "(" ++ text ++ ")" else text
  | negation operand => "NOT (" ++ operand.render inner false ++ ")"

def renderAll (inner : κ → String) : List (Filter κ) → List String
  | [] => []
  | f :: rest => f.render inner true :: renderAll inner rest

end

end Filter

def OrderKey.render (k : OrderKey) : String :=
  k.field ++ " " ++ k.direction.text ++ match k.nulls with
    | some place => " NULLS " ++ place.text
    | none => ""

def QueryOf.renderWith {κ : Type} (inner : κ → String) (q : QueryOf κ) : String :=
  joined " " (["SELECT " ++ joined ", " (q.items.map (·.render inner)), "FROM " ++ q.object] ++
    (match q.scope with
      | some s => if s.isEmpty then [] else ["USING SCOPE " ++ s]
      | none => []) ++
    (match q.filter with
      | some f => ["WHERE " ++ f.render inner false]
      | none => []) ++
    (if q.groupBy.isEmpty then [] else ["GROUP BY " ++ joined ", " q.groupBy]) ++
    (match q.having with
      | some h => if h.isEmpty then [] else ["HAVING " ++ h]
      | none => []) ++
    (if q.orderBy.isEmpty then []
      else ["ORDER BY " ++ joined ", " (q.orderBy.map OrderKey.render)]) ++
    (match q.limit with
      | some n => ["LIMIT " ++ toString n]
      | none => []) ++
    (match q.offset with
      | some n => ["OFFSET " ++ toString n]
      | none => []))

def InnerQuery.render (q : InnerQuery) : String :=
  q.renderWith Empty.elim

def Query.render (q : Query) : String :=
  q.renderWith InnerQuery.render

def QueryOf.counts {κ : Type} (q : QueryOf κ) : List Int :=
  q.limit.toList ++ q.offset.toList.map Int.ofNat

def Query.isShort (q : Query) : Bool :=
  (q.counts ++ (q.children ++ q.semiJoins.map (·.query)).flatMap QueryOf.counts).all Decimal.isShort

end Soql
