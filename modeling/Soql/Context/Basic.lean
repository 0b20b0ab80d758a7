import Soql.Grounding.Basic
import Soql.Schema.Graph

namespace Soql

open Text

/-- What a request wants of two related objects: a field of the parent, or the children. -/
inductive IntentKind where
  | parent | children
  deriving DecidableEq, Repr, Inhabited

def IntentKind.text : IntentKind → String
  | parent => "parent_lookup"
  | children => "child_subquery"

structure Intent where
  kind : IntentKind
  source : String
  target : String
  phrase : String
  deriving DecidableEq, Repr, Inhabited

structure ContextSize where
  objects : Nat := 0
  fields : Nat := 0
  relationships : Nat := 0
  deriving DecidableEq, Repr, Inhabited

def ContextSize.of (objects : List SObject) : ContextSize where
  objects := objects.length
  fields := (objects.flatMap (·.fields)).length
  relationships := (objects.flatMap (·.parents)).length + (objects.flatMap (·.children)).length

/-- The part of a schema that one request is about. The objects have only the fields that a prompt
shows; the catalog has them in full, and may hold further objects. -/
structure Context where
  objects : List SObject := []
  catalog : Catalog := []
  /-- the names of all objects that the tenant has -/
  known : List String := []
  grounding : List Grounding := []
  /-- the names of the objects that the request names -/
  scope : List String := []
  intents : List Intent := []
  stats : ContextSize := {}
  /-- the objects were chosen without comparing meanings, although that was wanted -/
  degraded : Bool := false
  tenant : Tenant := none
  deriving Inhabited

namespace Context

def ofObjects (objects : List SObject) (known : Option (List String))
    (grounding : List Grounding) (tenant : Tenant) : Context :=
  let catalog := Catalog.ofObjects objects
  { objects, catalog, grounding, tenant
    known := known.getD catalog.names
    scope := catalog.names
    stats := .of objects }

variable (c : Context)

def get? (name : String) : Option SObject :=
  c.catalog.get? name

def isKnown (name : String) : Bool :=
  c.known.any (sameLower · name) || (c.get? name).isSome

def foundValues : List String :=
  (c.grounding.filterMap (·.value)).filter (!·.isEmpty) |>.map lower

end Context

end Soql
