import Soql.Decimal.Fixed
import Soql.Json.Basic

namespace Soql

inductive GroundingKind where
  | exact | synonym | fuzzy | verified | pattern
  deriving DecidableEq, Repr, Inhabited

def GroundingKind.text : GroundingKind → String
  | exact => "exact"
  | synonym => "synonym"
  | fuzzy => "fuzzy"
  | verified => "instance_verified"
  | pattern => "pattern"

inductive GroundingPlace where
  | metadata | records
  deriving DecidableEq, Repr, Inhabited

def GroundingPlace.text : GroundingPlace → String
  | metadata => "metadata"
  | records => "instance_search"

/-- What a value named in a request was found to be; without a value it was not found. -/
structure Grounding where
  candidate : String
  value : Option String := none
  kind : Option GroundingKind := none
  source : Option GroundingPlace := none
  confidence : Float := 0.0
  evidence : List String := []
  object : Option String := none
  field : Option String := none
  filter : Option String := none
  deriving Inhabited

namespace Grounding

variable (g : Grounding)

def isGrounded : Bool :=
  g.value.isSome

def namePart : Option String → List String
  | some s => if s.isEmpty then [] else [s]
  | none => []

def hint : String :=
  match g.value with
  | none => "\"" ++ g.candidate ++ "\": ungrounded (do not invent a filter value)"
  | some value =>
    let place := namePart g.object ++ namePart g.field
    let place := if place.isEmpty then "" else " on " ++ ".".intercalate place
    let kind := (g.kind.map GroundingKind.text).getD "?"
    let filter := match namePart g.filter with
      | [f] => "; filter: " ++ f
      | _ => ""
    "\"" ++ g.candidate ++ "\" -> \"" ++ value ++ "\"" ++ place ++ " (" ++ kind ++ ", " ++
      Decimal.fixed 2 g.confidence ++ ")" ++ filter

def toJson : Json :=
  .record [
    ("candidate", .text g.candidate),
    ("value", .ofText? g.value),
    ("type", .ofText? (g.kind.map GroundingKind.text)),
    ("source", .ofText? (g.source.map GroundingPlace.text)),
    ("confidence", .float (Decimal.roundedTo 3 g.confidence)),
    ("object", .ofText? g.object),
    ("field", .ofText? g.field),
    ("suggested_filter", .ofText? g.filter),
    ("evidence", .ofTexts g.evidence)]

end Grounding

end Soql
