import Soql.Decimal.Reading
import Soql.Query.Error
import Soql.Query.Token

/-!
Reading a query from its tokens. Each reader takes tokens from the front and leaves the rest; what
may stand in place of an inner query is a parameter, so that inner queries are read by the same
readers with nothing allowed there.
-/

namespace Soql.Query

open Text

abbrev Reader := StateT (List Token) (Except ParseError)

def peek : Reader (Option Token) := do
  return (← get).head?

def atWord (words : List String) : Reader Bool := do
  return (← peek).any (·.isWord words)

def atMark (mark : String) : Reader Bool := do
  return (← peek).any (·.isMark mark)

def take : Reader Token := do
  match ← get with
  | [] => throw .unexpectedEnd
  | t :: rest =>
    set rest
    return t

def takeWord (word : String) : Reader Unit := do
  let t ← take
  unless t.upper == word do throw (.expectedWord word t.text)

def takeMark (mark : String) : Reader Unit := do
  let t ← take
  unless t.isMark mark do throw (.expectedMark mark t.text)

def takeName (what : String) : Reader String := do
  let t ← take
  unless t.kind == .name do throw (.expectedName what t.text)
  return t.text

/-- One or more items with a separator between them; the fuel bounds their number. -/
def separated {α : Type} (isSeparator : Token → Bool) (item : Reader α) : Nat → Reader (List α)
  | 0 => throw .unexpectedEnd
  | fuel + 1 => do
    let first ← item
    if (← peek).any isSeparator then
      let _ ← take
      return first :: (← separated isSeparator item fuel)
    else return [first]

def commaList {α : Type} (item : Reader α) : Reader (List α) := do
  separated (·.isMark ",") item ((← get).length + 1)

/-- The parts of an argument list up to its closing parenthesis; commas inside inner parentheses
separate nothing. -/
def argumentParts : (depth : Nat) → List Token → Except ParseError (List (List Token) × List Token)
  | _, [] => .error .unexpectedEnd
  | depth, t :: rest =>
    if t.isMark ")" && depth == 0 then .ok ([[]], rest)
    else if t.isMark "," && depth == 0 then
      (argumentParts 0 rest).map fun (parts, rest) => ([] :: parts, rest)
    else
      let inside := if t.isMark "(" then depth + 1 else if t.isMark ")" then depth - 1 else depth
      (argumentParts inside rest).map fun (parts, rest) =>
        match parts with
        | [] => ([[t]], rest)
        | part :: others => ((t :: part) :: others, rest)

/-- The arguments of a call; after the last comma there need not be one. -/
def readArguments : Reader (List String) := do
  takeMark "("
  let (parts, rest) ← argumentParts 0 (← get)
  set rest
  let parts := if parts.getLast?.any List.isEmpty then parts.dropLast else parts
  return parts.map Token.rowText

def readExpression : Reader String := do
  let name ← takeName "field"
  if ← atMark "(" then return name ++ "(" ++ joined ", " (← readArguments) ++ ")"
  else return name

def clauseWords : List String := [
  "FROM", "WHERE", "GROUP", "HAVING", "ORDER", "LIMIT", "OFFSET", "USING", "WITH", "FOR", "UNION",
  "EXCEPT", "INTERSECT"]

/-- The name of a select item. Without the keyword only a call is named: after a field a further name
lacks its comma. -/
def readAlias (afterCall : Bool) : Reader (Option Alias) := do
  if ← atWord ["AS"] then
    let _ ← take
    return some ⟨← takeName "alias", true⟩
  match ← peek with
  | some t =>
    if t.kind == .name && !t.isWord clauseWords && !t.text.toList.contains '.' then
      -- A name after a field looks like the next item without its comma.
      if afterCall then
        let _ ← take
        return some ⟨t.text, false⟩
      else throw (.expectedComma t.text)
    else return none
  | none => return none

def readNames : Reader (List String) :=
  commaList (takeName "field")

/-- The branches of a polymorphic relationship; the fuel bounds their number. -/
def readBranches : Nat → Reader (List TypeBranch)
  | 0 => return []
  | fuel + 1 => do
    if ← atWord ["WHEN"] then
      let _ ← take
      let object ← takeName "object type"
      takeWord "THEN"
      let fields ← readNames
      return ⟨object, fields⟩ :: (← readBranches fuel)
    else return []

def readTypeOf {κ : Type} : Reader (SelectItem κ) := do
  takeWord "TYPEOF"
  let relationship ← takeName "relationship"
  let branches ← readBranches ((← get).length + 1)
  let otherwise ← if ← atWord ["ELSE"] then
      let _ ← take
      readNames
    else pure []
  takeWord "END"
  if branches.isEmpty then throw (.branchless relationship)
  return .typeOf relationship branches otherwise

/-- What may stand in place of an inner query: for child records, after the opening parenthesis, and
as the right side of a semi-join. -/
structure Inside (κ : Type) where
  child : Reader κ
  semiJoin : Reader κ

def readItem {κ : Type} (inside : Inside κ) : Reader (SelectItem κ) := do
  if ← atMark "(" then
    let _ ← take
    return .child (← inside.child)
  else if ← atWord ["TYPEOF"] then readTypeOf
  else
    let name ← takeName "field"
    if clauseWords.contains (name.map Char.toUpper) then throw (.expectedField name)
    if ← atMark "(" then
      let args ← readArguments
      return .call name args (← readAlias true)
    else return .field name (← readAlias false)

def readItems {κ : Type} (inside : Inside κ) : Reader (List (SelectItem κ)) := do
  let items ← commaList (readItem inside)
  match ← peek with
  | some t => unless t.upper == "FROM" do throw (.expectedCommaOrFrom t.text)
  | none => pure ()
  return items

def isDateName (name : String) : Bool :=
  let base := (splitAt ':' name).headD ""
  Vocabulary.dateLiterals.contains base ||
    ["LAST_N_", "NEXT_N_", "N_"].any (beginsWith base)

/-- A value: a literal, a date, a number, a variable, or one of the names that are values, in their
usual letter case. -/
def readValue : Reader String := do
  let t ← take
  match t.kind with
  | .literal | .date | .number | .bind => return t.text
  | .name =>
    if t.upper == "NULL" then return "null"
    else if t.isWord ["TRUE", "FALSE"] || isDateName t.upper then return t.upper
    else throw (.unquotedLiteral t.text)
  | .operator | .mark => throw (.expectedValue t.text)

def readValueList : Reader String := do
  let values ← commaList readValue
  takeMark ")"
  return "(" ++ joined ", " values ++ ")"

def symbolOperator (text : String) : Operator :=
  match text with
  | "!=" => .unequal
  | "<>" => .angled
  | "<" => .less
  | "<=" => .atMost
  | ">" => .greater
  | ">=" => .atLeast
  | _ => .equal

def readMembership {κ : Type} (inside : Inside κ) (field : String) (negated : Bool) :
    Reader (Leaf κ) := do
  takeMark "("
  if ← atWord ["SELECT"] then
    return .semiJoin ⟨field, ← inside.semiJoin, negated⟩
  else
    return .compare ⟨field, if negated then .notIn else .isIn, ← readValueList⟩

def readLeaf {κ : Type} (inside : Inside κ) : Reader (Leaf κ) := do
  let field ← readExpression
  let t ← take
  if t.kind == .operator then
    return .compare ⟨field, symbolOperator t.text, ← readValue⟩
  else if t.upper == "LIKE" then return .compare ⟨field, .like, ← readValue⟩
  else if t.upper == "IN" then readMembership inside field false
  else if t.upper == "NOT" then
    takeWord "IN"
    readMembership inside field true
  else if t.upper == "INCLUDES" || t.upper == "EXCLUDES" then
    takeMark "("
    let operator := if t.upper == "INCLUDES" then Operator.includes else .excludes
    return .compare ⟨field, operator, ← readValueList⟩
  else if t.upper == "IS" then throw .nullTest
  else throw (.expectedOperator field t.text)

def combined {κ : Type} (connective : Connective) : List (Filter κ) → Filter κ
  | [operand] => operand
  | operands => .combine connective operands

def readCombined {κ : Type} (connective : Connective) (operand : Reader (Filter κ)) :
    Reader (Filter κ) := do
  return combined connective
    (← separated (·.isWord [connective.text]) operand ((← get).length + 1))

def readAlternatives {κ : Type} (operand : Reader (Filter κ)) : Reader (Filter κ) :=
  readCombined .any (readCombined .all operand)

/-- A condition that binds tighter than its connectives: a negation, a filter in parentheses, or one
without parts. The fuel bounds the nesting. -/
def readOperand {κ : Type} (inside : Inside κ) : Nat → Reader (Filter κ)
  | 0 => throw .unexpectedEnd
  | fuel + 1 => do
    if ← atWord ["NOT"] then
      let _ ← take
      return .negation (← readOperand inside fuel)
    else if ← atMark "(" then
      if ((← get)[1]?).any (·.upper == "SELECT") then throw .queryAsCondition
      let _ ← take
      let filter ← readAlternatives (readOperand inside fuel)
      takeMark ")"
      return filter
    else if ← atWord ["EXISTS"] then throw .existsCondition
    else return .leaf (← readLeaf inside)

def readFilter {κ : Type} (inside : Inside κ) : Reader (Filter κ) := do
  readAlternatives (readOperand inside ((← get).length + 1))

/-- The tokens before one that ends the clause: a word of the next clause or a closing parenthesis,
outside all parentheses. -/
def clauseTokens : (depth : Nat) → List Token → List Token × List Token
  | _, [] => ([], [])
  | depth, t :: rest =>
    if depth == 0 && (t.isWord ["ORDER", "LIMIT", "OFFSET", "FOR"] || t.isMark ")") then
      ([], t :: rest)
    else
      let inside := if t.isMark "(" then depth + 1 else if t.isMark ")" then depth - 1 else depth
      let (taken, rest) := clauseTokens inside rest
      (t :: taken, rest)

def readHaving : Reader String := do
  let (taken, rest) := clauseTokens 0 (← get)
  set rest
  if taken.isEmpty then throw .emptyHaving
  return Token.rowText taken

/-- One key of an ordering; the direction is ascending when none is written. -/
def readOrderKey : Reader OrderKey := do
  let field ← readExpression
  let direction ← if ← atWord ["ASC"] then do
      let _ ← take
      pure Direction.ascending
    else if ← atWord ["DESC"] then do
      let _ ← take
      pure .descending
    else pure .ascending
  let nulls ← if ← atWord ["NULLS"] then do
      let _ ← take
      if ← atWord ["FIRST"] then do
        let _ ← take
        pure (some NullsPlace.first)
      else if ← atWord ["LAST"] then do
        let _ ← take
        pure (some .last)
      else throw .nullsWithoutPlace
    else pure none
  return ⟨field, direction, nulls⟩

def readCount (clause : String) : Reader (Option Nat) := do
  if ← atWord [clause] then
    let _ ← take
    let t ← take
    let digits := t.text.toList
    unless t.kind == .number && digits.all isDecimal do throw (.expectedCount clause t.text)
    if digits.length > Decimal.digitLimit then throw .countTooLong
    return some (decimalValue digits)
  else return none

def optional {α : Type} (word : String) (clause : Reader α) : Reader (Option α) := do
  if ← atWord [word] then
    let _ ← take
    return some (← clause)
  else return none

def readScope : Reader String := do
  takeWord "SCOPE"
  takeName "scope name"

def readGroupBy : Reader (List String) := do
  takeWord "BY"
  if ← atWord ["ROLLUP", "CUBE"] then throw .groupingSets
  commaList readExpression

def readOrderBy : Reader (List OrderKey) := do
  takeWord "BY"
  commaList readOrderKey

def readQuery {κ : Type} (inside : Inside κ) : Reader (QueryOf κ) := do
  takeWord "SELECT"
  let items ← readItems inside
  takeWord "FROM"
  let object ← takeName "object name"
  if object.toList.contains '.' then throw (.dottedObject object)
  let scope ← optional "USING" readScope
  let filter ← optional "WHERE" (readFilter inside)
  if ← atWord ["WITH"] then throw .withClause
  let groupBy ← optional "GROUP" readGroupBy
  let having ← optional "HAVING" readHaving
  let orderBy ← optional "ORDER" readOrderBy
  let limit ← readCount "LIMIT"
  let offset ← readCount "OFFSET"
  if ← atWord ["FOR"] then throw .forClause
  return {
    object, items, scope, filter, having, offset
    groupBy := groupBy.getD []
    orderBy := orderBy.getD []
    limit := limit.map Int.ofNat }

def nothingInside : Inside Empty where
  child := throw .childTooDeep
  semiJoin := throw .semiJoinTooDeep

def readInner : Reader InnerQuery := do
  let q ← readQuery nothingInside
  takeMark ")"
  return q

def innerInside : Inside InnerQuery where
  child := readInner
  semiJoin := readInner

def nothingLeft : Reader Unit := do
  match ← peek with
  | none => return ()
  | some t =>
    if t.isWord ["UNION", "EXCEPT", "INTERSECT"] then throw (.setOperator t.upper)
    else throw (.trailing t.text)

def ofTokens (tokens : List Token) : Except ParseError Query :=
  (do
    let q ← readQuery innerInside
    nothingLeft
    return q : Reader Query).run' tokens

/-- Reads a query; blanks around it and semicolons after it do not count. -/
def parse (text : String) : Except ParseError Query :=
  let text := bareStatement text
  if text.isEmpty then .error .emptyQuery
  else
    match Token.ofText text with
    | .error (c, position) => .error (.unexpectedCharacter c position)
    | .ok tokens => ofTokens tokens

end Soql.Query
