import Soql.Json.Basic
import Soql.Repair.Action

namespace Soql

inductive Severity where
  | error | warning
  deriving DecidableEq, Repr, Inhabited

def Severity.text : Severity → String
  | error => "error"
  | warning => "warning"

/-- What a check of a query says: the rule it comes from, and the correction that answers it, if one
is known. -/
structure Message where
  severity : Severity
  rule : String
  text : String
  action : Option Action := none
  suggestedLimit : Option Int := none
  deriving DecidableEq, Repr, Inhabited

namespace Message

def isError (m : Message) : Bool :=
  m.severity == .error

def error (rule text : String) (action : Option Action) : Message :=
  ⟨.error, rule, text, action, none⟩

def errors (messages : List Message) : List Message :=
  messages.filter (·.isError)

def toJson (m : Message) : Json :=
  .record ([("severity", Json.text m.severity.text), ("rule", .text m.rule), ("message", .text m.text)] ++
    (match m.action with
      | some a => [("action", .text a.describe)]
      | none => []) ++
    (match m.suggestedLimit with
      | some n => [("suggested_limit", .int n)]
      | none => []))

end Message

end Soql
