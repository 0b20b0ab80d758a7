import Soql.Query.Render

namespace Soql

open Text

inductive Clause where
  | select | filter | group | order
  deriving DecidableEq, Repr, Inhabited

def Clause.text : Clause → String
  | select => "SELECT"
  | filter => "WHERE"
  | group => "GROUP BY"
  | order => "ORDER BY"

def Clause.every : List Clause :=
  [select, filter, group, order]

structure Reference where
  clause : Clause
  path : String
  deriving DecidableEq, Repr, Inhabited

/-- The field paths of an expression, without literals, function names and reserved words. -/
def fieldPaths (expr : String) : List String :=
  ((dottedPaths (withoutLiterals expr.toList)).map .ofList).filter (!Vocabulary.isKeyword ·)

def SelectItem.fieldPaths {κ : Type} : SelectItem κ → List String
  | field path _ => [path]
  | call _ args _ => args.flatMap Soql.fieldPaths
  | child _ => []
  | typeOf _ _ _ => []

def QueryOf.references {κ : Type} (q : QueryOf κ) : List Reference :=
  (q.items.flatMap SelectItem.fieldPaths).map (⟨.select, ·⟩) ++
    (q.leaves.flatMap fun l => fieldPaths l.field).map (⟨.filter, ·⟩) ++
    (q.groupBy.flatMap fieldPaths).map (⟨.group, ·⟩) ++
    (q.orderBy.flatMap fun k => fieldPaths k.field).map (⟨.order, ·⟩)

/-- The first argument of a call that only changes how a value is shown. -/
def unwrapped (s : List Char) : Option (List Char) :=
  let name := s.takeWhile isWord
  match s.dropWhile isWord with
  | '(' :: inside =>
    if inside.getLast? == some ')' && Vocabulary.transparentCalls.contains (.ofList name) then
      some (inside.dropLast.takeWhile (· != ','))
    else none
  | _ => none

/-- A text without such calls around it; the fuel bounds their number. -/
def unwrapAll : Nat → List Char → List Char
  | 0, s => s
  | fuel + 1, s =>
    match unwrapped s with
    | some inner => unwrapAll fuel inner
    | none => s

/-- The signature of an expression: in lower case, without blanks and without calls that only change
how a value is shown. -/
def signature (expr : String) : String :=
  let s := lowerChars (expr.toList.filter (!isBlank ·))
  .ofList (unwrapAll s.length s)

def SelectItem.signature? {κ : Type} : SelectItem κ → Option String
  | field path _ => some (signature path)
  | call name args _ => some (signature (callText name args))
  | child _ => none
  | typeOf _ _ _ => none

end Soql
