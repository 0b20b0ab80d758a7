import Soql.Failure
import Soql.Json.Basic
import Soql.Schema.Graph

namespace Soql

def Json.required (j : Json) (name : String) : Except Failure String :=
  match j.get? name with
  | some (.text s) => .ok s
  | some _ => .error .wrongKind
  | none => .error (.missingMember name)

def Json.listAt (j : Json) (name : String) : Except Failure (List Json) :=
  match j.get? name with
  | none => .ok []
  | some (.list items) => .ok items
  | some _ => .error .wrongKind

def Json.texts (j : Json) (name : String) : List String :=
  (j.get name).items.filterMap Json.text?

def Json.givenText (j : Json) (name : String) : Option String :=
  match j.get name with
  | .text s => if s.isEmpty then none else some s
  | _ => none

def Json.flag (j : Json) (name : String) (absent : Bool) : Bool :=
  ((j.get? name).bind Json.bool?).getD absent

/-- A field; without a label its name is its label. -/
def Field.ofJson (j : Json) : Except Failure Field := do
  let name ← j.required "api_name"
  return {
    name
    label := (j.givenText "label").getD name
    kind := ((j.get "type").text?).getD "string"
    filterable := j.flag "filterable" true
    sortable := j.flag "sortable" true
    groupable := j.flag "groupable" true
    calculated := j.flag "calculated" false
    targets := j.texts "reference_to"
    relationship := (j.get "relationship_name").text?
    values := j.texts "picklist_values"
    description := ((j.get "description").text?).getD "" }

def ChildLink.ofJson (j : Json) : Except Failure ChildLink := do
  return {
    relationship := ← j.required "relationship_name"
    object := ← j.required "child_object"
    field := ((j.get "field").text?).getD "" }

/-- An object; its ways to parents are those that its fields give. -/
def SObject.ofJson (j : Json) : Except Failure SObject := do
  let fields ← (← j.listAt "fields").mapM Field.ofJson
  let children ← (← j.listAt "child_relationships").mapM ChildLink.ofJson
  let name ← j.required "api_name"
  return {
    name, fields, children
    label := (j.givenText "label").getD name
    category := (j.get "category").text?
    description := ((j.get "description").text?).getD ""
    parents := parentLinks fields
    recordCount := (j.get "record_count").int? }

/-- A record; without a name its id is its name. -/
def Record.ofJson (j : Json) : Except Failure Record := do
  let object ← j.required "type"
  let id ← j.required "id"
  return {
    object, id
    name := ((j.get "name").text?).getD id
    fields := j.members.filter fun (key, _) => !(["type", "id", "name"].contains key) }

def Holdings.ofJson (j : Json) : Except Failure Holdings := do
  let objects ← (← j.listAt "objects").mapM SObject.ofJson
  let records ← (← j.listAt "records").mapM Record.ofJson
  return {
    objects := Catalog.ofObjects objects
    vectors := (j.get "embeddings").members.map fun (name, v) => (name, v.items.filterMap Json.number?)
    records }

end Soql
