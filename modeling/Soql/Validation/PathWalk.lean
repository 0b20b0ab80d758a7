import Soql.Context.Basic
import Soql.Nearest
import Soql.Text.Path
import Soql.Vocabulary

/-!
Following a path from an object through its relationships to a field. Where a relationship leads only
to objects that are not described, the walk ends well: nothing is known against the path.
-/

namespace Soql.PathWalk

open Text

inductive Outcome where
  /-- the path may be used; the field is given when it is described -/
  | reached (field : Option Field)
  /-- the path leads nowhere; the correction is a path to try in its place -/
  | lost (message : String) (corrected : Option String)
  deriving DecidableEq, Repr, Inhabited

def Outcome.isReached : Outcome → Bool
  | reached _ => true
  | lost _ _ => false

def Outcome.field? : Outcome → Option Field
  | reached field => field
  | lost _ _ => none

def commonFields : List String :=
  ["id", "name", "type", "firstname", "lastname", "alias"]

/-- The first part of a path is the name of the object that it starts at; a relationship of that name
wins. -/
def namesItself (part : String) (o : SObject) : Bool :=
  sameLower part o.name && (o.parentsBy part).isEmpty

def splitOwnName (path : String) (o : SObject) : List String × List String :=
  match segments path with
  | first :: second :: rest =>
    if namesItself first o then ([first], second :: rest) else ([], first :: second :: rest)
  | parts => ([], parts)

/-- The end of a walk whose next relationship is unknown; `before` are the parts already taken. -/
def lostAtLink (before : List String) (owner part : String) (rest : List String)
    (links : List ParentLink) (found : Nearest.LinkMatch) : Outcome :=
  let message := "Relationship \"" ++ part ++ "\" not found on " ++ owner
  match found.suggested with
  | some link =>
    let target := if link.target.isEmpty then "" else " (targets " ++ link.target ++ ")"
    .lost (message ++ ". Did you mean \"" ++ link.relationship ++ "\"" ++ target ++ "?")
      (some (joined "." (before ++ link.relationship :: rest)))
  | none =>
    let available := (sortedTexts (links.map (·.relationship)).eraseDups).take 8
    .lost
      (if available.isEmpty then message
        else message ++ ". Available relationships: " ++ joined ", " available)
      none

def lostAtField (before : List String) (name : String) (owner : SObject) : Outcome :=
  let message := "Field \"" ++ name ++ "\" not found on " ++ owner.name
  match (Nearest.field name owner.fields).suggested with
  | some suggestion =>
    if suggestion.isEmpty then .lost message none
    else
      .lost (message ++ ". Did you mean \"" ++ suggestion ++ "\"?")
        (some (joined "." (before ++ [suggestion])))
  | none => .lost message none

/-- The field at the end of a walk that has come to some objects, the first of them in front. -/
def lastStep (before : List String) (owner : SObject) (others : List SObject)
    (name : String) : Outcome :=
  match (owner :: others).findSome? (·.field? name) with
  | some f => .reached (some f)
  | none =>
    if !others.isEmpty && commonFields.contains (lower name) then .reached none
    else lostAtField before name owner

def walkFrom (context : Context) (before : List String) (owner : SObject)
    (others : List SObject) : List String → Outcome
  | [] => lastStep before owner others ""
  | [name] => lastStep before owner others name
  | part :: next :: rest =>
    let links := (owner :: others).flatMap (·.parents)
    match Nearest.link part links with
    | .found matching =>
      match (matching.map (·.target)).eraseDups.filterMap context.get? with
      | [] => .reached none
      | owner :: others => walkFrom context (before ++ [part]) owner others (next :: rest)
    | found => lostAtLink before owner.name part (next :: rest) links found

def walk (context : Context) (start : SObject) (path : String) : Outcome :=
  let (own, parts) := splitOwnName path start
  walkFrom context own start [] parts

def junctionOf (part : String) (main : SObject) : Option String :=
  if !(main.parentsBy part).isEmpty || namesItself part main then none
  else
    match Vocabulary.junctions.find? fun j => sameLower j.object part with
    | some j => some j.object
    | none =>
      (main.children.find? fun c => sameLower c.relationship part || sameLower c.object part).map
        (·.object)

def fieldToMain (junction : String) (main : SObject) (context : Context) : Option String :=
  let known := Vocabulary.junctions.find? fun j => j.object == junction && sameLower j.parent main.name
  match known with
  | some j => some j.link
  | none =>
    let described := (context.get? junction).bind fun o =>
      o.fields.find? fun f => f.targets.contains main.name
    match described with
    | some f => some f.name
    | none =>
      (main.children.find? fun c => c.object == junction && !c.field.isEmpty).map (·.field)

end Soql.PathWalk
