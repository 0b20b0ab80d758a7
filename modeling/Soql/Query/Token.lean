import Soql.Text.Digit
import Soql.Text.Shown
import Soql.Query.Basic

/-!
The tokens of a query. A token starts with a character that decides its kind, or almost so, and is as
long as its kind allows; blanks separate tokens and are none.
-/

namespace Soql

open Text

inductive TokenKind where
  /-- a string in single quotes -/
  | literal
  /-- a date, or a date with a time -/
  | date
  | number
  /-- a variable that is still to be filled in -/
  | bind
  /-- identifiers joined by points, with a count after a colon when it names a date -/
  | name
  | operator
  /-- a parenthesis or a comma -/
  | mark
  deriving DecidableEq, Repr, Inhabited

structure Token where
  kind : TokenKind
  text : String
  deriving DecidableEq, Repr, Inhabited

namespace Token

def upper (t : Token) : String :=
  t.text.map Char.toUpper

def isWord (t : Token) (words : List String) : Bool :=
  words.contains t.upper

def isMark (t : Token) (mark : String) : Bool :=
  t.kind == .mark && t.text == mark

/-- A text has a shape: a nought stands for any digit and another character for itself. -/
def hasShape : List Char → List Char → Bool
  | [], _ => true
  | _ :: _, [] => false
  | shape :: shapes, c :: rest =>
    (if shape == '0' then isDecimal c else c == shape) && hasShape shapes rest

def digitCount (s : List Char) : Nat :=
  (s.takeWhile isDecimal).length

def placesLength : List Char → Nat
  | '.' :: rest => if digitCount rest == 0 then 0 else 1 + digitCount rest
  | _ => 0

def zoneLength : List Char → Nat
  | 'Z' :: _ => 1
  | c :: rest => if (c == '+' || c == '-') && hasShape "00:00".toList rest then 6 else 0
  | [] => 0

def timeLength (s : List Char) : Nat :=
  if hasShape "T00:00:00".toList s then
    let places := placesLength (s.drop 9)
    9 + places + zoneLength (s.drop (9 + places))
  else 0

def dateLength (s : List Char) : Option Nat :=
  if hasShape "0000-00-00".toList s then some (10 + timeLength (s.drop 10)) else none

def numberLength (s : List Char) : Option Nat :=
  let digits := digitCount s
  if digits == 0 then none else some (digits + placesLength (s.drop digits))

def countLength : List Char → Nat
  | ':' :: rest => if digitCount rest == 0 then 0 else 1 + digitCount rest
  | _ => 0

def nameLength (s : List Char) : Option Nat :=
  (dotted s).map fun (path, after) => path.length + countLength after

def isLongOperator (c d : Char) : Bool :=
  (d == '=' && (c == '<' || c == '>' || c == '!')) || (c == '<' && d == '>')

/-- The kind of the token that a character starts, blanks having none, and how many of the characters
that follow belong to it. -/
def start (c : Char) (rest : List Char) : Option (Option TokenKind × Nat) :=
  if isBlank c then some (none, (rest.takeWhile isBlank).length)
  else if c == '\x27' then
    (literalBody c rest).map fun (body, _) => (some .literal, body.length + 1)
  else if c == '-' then (numberLength rest).map fun n => (some .number, n)
  else if isDecimal c then
    match dateLength (c :: rest) with
    | some n => some (some .date, n - 1)
    | none => (numberLength (c :: rest)).map fun n => (some .number, n - 1)
  else if c == ':' then
    match rest with
    | d :: others =>
      if isIdentFirst d then some (some .bind, 1 + (others.takeWhile isIdentRest).length) else none
    | [] => none
  else if isIdentFirst c then (nameLength (c :: rest)).map fun n => (some .name, n - 1)
  else if rest.head?.any (isLongOperator c) then some (some .operator, 1)
  else if c == '=' || c == '<' || c == '>' then some (some .operator, 0)
  else if c == '(' || c == ')' || c == ',' then some (some .mark, 0)
  else none

def scan (position : Nat) (s : List Char) : Except (Char × Nat) (List Token) :=
  match s with
  | [] => .ok []
  | c :: rest =>
    match start c rest with
    | none => .error (c, position)
    | some (kind?, further) =>
      match scan (position + further + 1) (rest.drop further) with
      | .error e => .error e
      | .ok tokens =>
        match kind? with
        | some kind => .ok (⟨kind, .ofList (c :: rest.take further)⟩ :: tokens)
        | none => .ok tokens
termination_by s.length
decreasing_by
  simp only [List.length_drop, List.length_cons]
  omega

def ofText (s : String) : Except (Char × Nat) (List Token) :=
  scan 0 s.toList

def joinsTo (previous next : Token) : Bool :=
  next.text == ")" || next.text == "," || previous.text == "(" ||
    (next.text == "(" && previous.kind == .name)

def textAfter (previous : Token) : List Token → String
  | [] => ""
  | t :: rest => (if joinsTo previous t then t.text else " " ++ t.text) ++ textAfter t rest

def rowText : List Token → String
  | [] => ""
  | t :: rest => t.text ++ textAfter t rest

end Token

end Soql
