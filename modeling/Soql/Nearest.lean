import Soql.Schema.Basic
import Soql.Text.Distance
import Soql.Text.Cut

namespace Soql.Nearest

open Text

def maxEdits : Int :=
  3

def partLength : Nat :=
  3

/-- The first of the nearest items, with its distance, when it is nearer than what is given. -/
def firstNearest {α : Type} (distance : α → Nat) : (best : Option α) → (bound : Int) → List α → Option α
  | best, _, [] => best
  | best, bound, a :: rest =>
    let d := distance a
    if (d : Int) < bound then firstNearest distance (some a) d rest
    else firstNearest distance best bound rest

/-- The candidate that was meant by a name: an equal one, one that starts with the name, one that
holds it, or else the nearest one within some edits; letter case does not count. -/
def closest (name : String) (candidates : List String) (edits : Int) : Option String :=
  let low := lowerChars name.toList
  let pool := (candidates.filter (!·.isEmpty)).map fun c => (c, lowerChars c.toList)
  let longer := low.length ≥ partLength
  let found := (pool.find? fun (_, c) => c == low).orElse fun _ =>
    (if longer then pool.find? fun (_, c) => low.isPrefixOf c else none).orElse fun _ =>
    (if longer then pool.find? fun (_, c) => occurs low c else none).orElse fun _ =>
    firstNearest (fun (_, c) => distance low c) none (edits + 1) pool
  found.map (·.1)

def closestName (name : String) (candidates : List String) : Option String :=
  closest name candidates maxEdits

inductive FieldMatch where
  | found (name : String)
  | suggestion (name : String)
  | none
  deriving DecidableEq, Repr, Inhabited

/-- Looks a field up by name; a label is no name, but suggests one. -/
def field (name : String) (fields : List Field) : FieldMatch :=
  match fields.find? fun f => sameLower f.name name with
  | some f => .found f.name
  | none =>
    match fields.find? fun f => !f.label.isEmpty && sameLower f.label name with
    | some f => .suggestion f.name
    | none =>
      match closestName name (fields.map (·.name)) with
      | some suggestion => .suggestion suggestion
      | none => .none

def FieldMatch.suggested : FieldMatch → Option String
  | suggestion name => some name
  | _ => Option.none

inductive LinkMatch where
  | found (links : List ParentLink)
  | suggestion (link : ParentLink)
  | none
  deriving DecidableEq, Repr, Inhabited

/-- The relationship that is suggested; one without a name is no suggestion. -/
def LinkMatch.suggested : LinkMatch → Option ParentLink
  | suggestion link => if link.relationship.isEmpty then Option.none else some link
  | _ => Option.none

/-- Looks a relationship up by name; the name of the object that it leads to suggests it. -/
def link (part : String) (links : List ParentLink) : LinkMatch :=
  let low := lowerChars part.toList
  let nameOf (l : ParentLink) := lowerChars l.relationship.toList
  match links.filter fun l => nameOf l == low with
  | first :: others => .found (first :: others)
  | [] =>
    match links.find? fun l => lowerChars l.target.toList == low with
    | some l => .suggestion l
    | none =>
      let near := firstNearest (fun l => distance low (nameOf l)) Option.none (maxEdits + 1) links
      let best := near.orElse fun _ =>
        if low.length ≥ partLength then
          links.find? fun l => low.isPrefixOf (nameOf l) || occurs low (nameOf l)
        else Option.none
      match best with
      | some l => .suggestion l
      | none => .none

end Soql.Nearest
