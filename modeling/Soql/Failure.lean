import Soql.Text.Shown
import Soql.Text.Template

namespace Soql

inductive CountError where
  /-- a text that is not a whole number -/
  | notWhole (text : String)
  /-- a floating-point value that is no number -/
  | notANumber
  | infinite
  /-- a value that is neither a number nor a text -/
  | wrongKind (kind : String)
  deriving DecidableEq, Repr, Inhabited

def CountError.message : CountError → String
  | notWhole text => "invalid literal for int() with base 10: " ++ Text.shown text
  | notANumber => "cannot convert float NaN to integer"
  | infinite => "cannot convert float infinity to integer"
  | wrongKind kind =>
    "int() argument must be a string, a bytes-like object or a real number, not '" ++ kind ++ "'"

inductive Failure where
  /-- a collaborator could not be reached -/
  | unreachable (capability reason : String)
  /-- the time allowed has passed -/
  | late (reason : String)
  /-- a record lacks a member that it must have -/
  | missingMember (name : String)
  /-- a value is of the wrong kind -/
  | wrongKind
  /-- a text is not the number it should be -/
  | notANumber
  /-- a number has no whole part -/
  | infinite
  /-- a reported value is no count -/
  | uncountable (error : CountError)
  /-- a term would not make a search -/
  | invalidSearchTerm (term : String)
  /-- a new name is no template -/
  | unreadable (error : Text.TemplateError)
  /-- a number has more digits than are written -/
  | tooLong
  /-- a text with half a character is written to a file -/
  | halved
  /-- a collaborator failed while it worked -/
  | runtime (reason : String)
  /-- the connection to a collaborator failed -/
  | connection (reason : String)
  /-- a collaborator refused a value -/
  | refusedValue (reason : String)
  /-- the model provider rejected a request -/
  | rejected (reason : String)
  deriving DecidableEq, Repr, Inhabited

def Failure.reason : Failure → String
  | unreachable capability reason => capability ++ ": " ++ reason
  | late reason => reason
  | missingMember name => name
  | wrongKind => "a value is of the wrong kind"
  | notANumber => "a text is not a number"
  | infinite => "a number has no whole part"
  | uncountable error => error.message
  | invalidSearchTerm term => "Invalid SOSL term: \"" ++ term ++ "\""
  | unreadable .malformed => "a text is not a template"
  | unreadable .noGroup => "a template names a group that there is not"
  | tooLong => "a number has more digits than are written"
  | halved => "a text has half a character"
  | runtime reason => reason
  | connection reason => reason
  | refusedValue reason => reason
  | rejected reason => reason

/-- A failure while a capability was used, unless it already names the capability that failed. -/
def Failure.during (capability activity : String) : Failure → Failure
  | unreachable c reason => unreachable c reason
  | failure => unreachable capability (activity ++ ": " ++ failure.reason)

end Soql
