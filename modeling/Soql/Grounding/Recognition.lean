import Soql.Decimal.Reading
import Soql.Decimal.Shortest
import Soql.Failure
import Soql.Query.Token
import Soql.Text.RecordId

namespace Soql

open Text Decimal

inductive Form where
  | recordId | dateLiteral | dateValue | currency | number | email | phone | url
  deriving DecidableEq, Repr, Inhabited

def Form.text : Form → String
  | recordId => "record_id"
  | dateLiteral => "date_literal"
  | dateValue => "date_value"
  | currency => "currency"
  | number => "number"
  | email => "email"
  | phone => "phone"
  | url => "url"

structure Recognition where
  form : Form
  normalized : String
  /-- the value as it was given -/
  given : String
  confidence : Float
  deriving Inhabited

namespace Recognition

/-- A number as text: a whole one in full, another one in the shortest way. An infinite one has no
text. -/
def numberText (x : Float) : Except Failure String :=
  match truncated x with
  | none => .error .infinite
  | some n => .ok (if Float.ofInt n == x then toString n else shortestText x)

/-- A date: four digits, two and two. -/
def isDate (s : List Char) : Bool :=
  s.length == 10 && Token.hasShape "0000-00-00".toList s

def withoutCents (s : List Char) : List Char :=
  let cents := s.drop (s.length - 3)
  if s.length > 3 && Token.hasShape ".00".toList cents then s.take (s.length - 3) else s

/-- An amount of money: digits and commas, with a currency sign in front or a comma inside. -/
def isCurrency (s : List Char) : Bool :=
  let amount := match s with
    | '$' :: rest => rest
    | s => s
  let whole := withoutCents amount
  (s.contains '$' || s.contains ',') && !whole.isEmpty && whole.all fun c => isDecimal c || c == ','

def factor : List Char → Option Float
  | [] => some 1
  | ['k'] | ['K'] => some 1000
  | ['m'] | ['M'] => some 1000000
  | ['b'] | ['B'] => some 1000000000
  | _ => none

def scaled (s : List Char) : Option Float := do
  let length ← Token.numberLength s
  let f ← factor ((s.drop length).dropWhile isBlank)
  let x ← readFloat (.ofList (s.take length))
  return x * f

/-- A mail address: one sign in the middle, no blank, and a point inside what follows the sign. -/
def isEmail (s : List Char) : Bool :=
  match pieces (· == '@') s with
  | [name, host] =>
    !name.isEmpty && !s.any isBlank && (host.drop 1).dropLast.contains '.'
  | _ => false

/-- A telephone number: digits, blanks and the signs between them. -/
def isPhone (s : List Char) : Bool :=
  s.length ≥ 7 && (s.filter isDecimal).length ≥ 7 && s.all fun c =>
    isDecimal c || isBlank c || ['-', '+', '(', ')', '.'].contains c

def afterProtocol (s : List Char) : Option (List Char) :=
  ["https://", "http://"].findSome? fun p =>
    if beginsFolded p.toList s then some (s.drop p.length) else none

def isUrl (s : List Char) : Bool :=
  match afterProtocol s with
  | some (c :: _) => c != '\n'
  | _ => false

/-- Recognises a value by its form; of several the first in this order. An amount without a digit, or
one beyond all numbers, is a failure. -/
def of (value : String) : Except Failure (Option Recognition) := do
  let s := trim value.toList
  let text := String.ofList s
  let low := lower text
  let found (form : Form) (normalized : String) (confidence : Float) :
      Except Failure (Option Recognition) := .ok (some ⟨form, normalized, value, confidence⟩)
  if s.isEmpty then return none
  if hasIdForm s && s.any Char.isDigit then return ← found .recordId text 0.95
  if Vocabulary.dateLiterals.contains (upper text) then return ← found .dateLiteral (upper text) 0.98
  if let some date := Vocabulary.dateWords.lookup low then return ← found .dateLiteral date 0.95
  if isDate s then return ← found .dateValue text 0.95
  if isCurrency s then
    match readFloat (.ofList (s.filter fun c => c != '$' && c != ',')) with
    | none => throw .notANumber
    | some x => return ← found .currency (← numberText x) 0.9
  if let some x := scaled s then return ← found .number (← numberText x) 0.9
  if isEmail s then return ← found .email low 0.95
  if isPhone s then return ← found .phone (.ofList (s.filter isDecimal)) 0.85
  if isUrl s then return ← found .url text 0.95
  return none

def fieldAndFilter (r : Recognition) : String × String :=
  let v := r.normalized
  match r.form with
  | .recordId => ("Id", "Id = '" ++ v ++ "'")
  | .dateLiteral | .dateValue => ("CreatedDate", "CreatedDate = " ++ v)
  | .currency | .number => ("Amount", "Amount >= " ++ v)
  | .email => ("Email", "Email = '" ++ v ++ "'")
  | .phone => ("Phone", "Phone LIKE '%" ++ afterChars (v.length - 10) v ++ "%'")
  | .url => ("Website", "Website = '" ++ v ++ "'")

end Recognition

end Soql
