import Soql.Decimal.Binary
import Soql.Decimal.Reading
import Soql.Failure
import Soql.Json.Basic
import Soql.Json.Printer

namespace Soql

structure Usage where
  prompt : Int := 0
  completion : Int := 0
  total : Int := 0
  deriving DecidableEq, Repr, Inhabited

namespace Usage

def add (a b : Usage) : Usage :=
  ⟨a.prompt + b.prompt, a.completion + b.completion, a.total + b.total⟩

def sum (usages : List Usage) : Usage :=
  usages.foldl add {}

def toJson (u : Usage) : Json :=
  .record [("prompt_tokens", .int u.prompt), ("completion_tokens", .int u.completion),
    ("total_tokens", .int u.total)]

/-- A count of tokens as it may be reported: a number, of which the whole part counts, a truth value, or
a text with a whole number. -/
def count : Json → Except CountError Int
  | .int n => .ok n
  | .bool b => .ok (if b then 1 else 0)
  | .float x =>
    if x.isNaN then .error .notANumber
    else match Decimal.truncated x with
      | some n => .ok n
      | none => .error .infinite
  | .text s =>
    match Decimal.readInt s with
    | some n => .ok n
    | none => .error (.notWhole s)
  | .null => .error (.wrongKind "NoneType")
  | .list _ => .error (.wrongKind "list")
  | .record _ => .error (.wrongKind "dict")

def countUnder (report : Json) (name : String) (absent : Int) : Except Failure Int :=
  (count ((report.get? name).getD (.int absent))).mapError .uncountable

/-- Reads what was reported; without a total of its own it is what prompt and completion took. -/
def ofReport (report : Json) : Except Failure Usage := do
  let prompt ← countUnder report "prompt_tokens" 0
  let completion ← countUnder report "completion_tokens" 0
  let total ← countUnder report "total_tokens" (prompt + completion)
  return ⟨prompt, completion, total⟩

end Usage

end Soql
