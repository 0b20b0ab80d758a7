import Soql.Text.Casing
import Soql.Table

namespace Soql

open Text

structure Field where
  name : String
  label : String := name
  kind : String := "string"
  filterable : Bool := true
  sortable : Bool := true
  groupable : Bool := true
  calculated : Bool := false
  /-- the objects whose records the field may point to -/
  targets : List String := []
  /-- the name under which the record pointed to is reached -/
  relationship : Option String := none
  values : List String := []
  description : String := ""
  deriving DecidableEq, Repr, Inhabited

namespace Field

def isReference (f : Field) : Bool :=
  f.kind == "reference" || !f.targets.isEmpty

def isPolymorphic (f : Field) : Bool :=
  f.isReference && f.targets.length > 1

def isPicklist (f : Field) : Bool :=
  f.kind == "picklist" || f.kind == "multipicklist"

end Field

structure ParentLink where
  field : String
  relationship : String
  target : String
  deriving DecidableEq, Repr, Inhabited

structure ChildLink where
  relationship : String
  object : String
  field : String := ""
  deriving DecidableEq, Repr, Inhabited

structure SObject where
  name : String
  label : String := name
  category : Option String := none
  description : String := ""
  fields : List Field := []
  parents : List ParentLink := []
  children : List ChildLink := []
  recordCount : Option Int := none
  deriving DecidableEq, Repr, Inhabited

structure Summary where
  name : String
  label : String := ""
  category : Option String := none
  deriving DecidableEq, Repr, Inhabited

/-- The ways to parents that fields give: one for each object that a named reference points to. -/
def parentLinks (fields : List Field) : List ParentLink :=
  fields.flatMap fun f =>
    match f.relationship with
    | some relationship =>
      if f.isReference && !relationship.isEmpty then
        f.targets.map fun target => ⟨f.name, relationship, target⟩
      else []
    | none => []

namespace SObject

variable (o : SObject)

def fieldNames : List String :=
  o.fields.map (·.name)

def field? (name : String) : Option Field :=
  o.fields.find? fun f => sameLower f.name name

def parentsBy (relationship : String) : List ParentLink :=
  o.parents.filter fun link => sameLower link.relationship relationship

def child? (relationship : String) : Option ChildLink :=
  o.children.find? fun link => sameLower link.relationship relationship

def neighbors : List String :=
  (o.parents.map (·.target) ++ o.children.map (·.object)).eraseDups.filter (· != o.name)

def summary : Summary :=
  ⟨o.name, o.label, o.category⟩

end SObject

abbrev Catalog := List (String × SObject)

namespace Catalog

/-- Objects under their own names; of two with one name the later one counts. -/
def ofObjects (objects : List SObject) : Catalog :=
  Table.putAll (objects.map fun o => (o.name, o)) []

def names (catalog : Catalog) : List String :=
  catalog.map (·.1)

/-- The object under a name, in any letter case when there is none under the name as it is. -/
def get? (catalog : Catalog) (name : String) : Option SObject :=
  match Table.find? name catalog with
  | some o => some o
  | none => (catalog.find? fun (key, _) => sameLower key name).map (·.2)

end Catalog

def sortedTexts (texts : List String) : List String :=
  texts.mergeSort fun a b => decide (a ≤ b)

end Soql
