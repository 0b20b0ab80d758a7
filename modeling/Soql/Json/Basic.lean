namespace Soql

inductive Json where
  | null
  | bool (b : Bool)
  | int (n : Int)
  | float (x : Float)
  | text (s : String)
  | list (items : List Json)
  | record (members : List (String × Json))
  deriving Inhabited

namespace Json

/-- Sets a member: a name that is there keeps its place and takes the new value. -/
def setMember (name : String) (value : Json) : List (String × Json) → List (String × Json)
  | [] => [(name, value)]
  | (other, old) :: rest =>
    if other == name then (name, value) :: rest else (other, old) :: setMember name value rest

/-- A record from members in the order written; of two with one name the later value counts. -/
def ofMembers (members : List (String × Json)) : Json :=
  .record (members.foldl (fun sofar (name, value) => setMember name value sofar) [])

/-- The members of a record; other values have none. -/
def members : Json → List (String × Json)
  | .record members => members
  | _ => []

def get? (j : Json) (name : String) : Option Json :=
  j.members.lookup name

def get (j : Json) (name : String) : Json :=
  (j.get? name).getD .null

/-- The items of a list; other values have none. -/
def items : Json → List Json
  | .list items => items
  | _ => []

def text? : Json → Option String
  | .text s => some s
  | _ => none

def int? : Json → Option Int
  | .int n => some n
  | _ => none

def number? : Json → Option Float
  | .int n => some (Float.ofInt n)
  | .float x => some x
  | _ => none

def bool? : Json → Option Bool
  | .bool b => some b
  | _ => none

/-- A value that says something: not `null`, `false`, nought, or empty. -/
def isGiven : Json → Bool
  | .null => false
  | .bool b => b
  | .int n => n != 0
  | .float x => !(x == 0)
  | .text s => !s.isEmpty
  | .list items => !items.isEmpty
  | .record members => !members.isEmpty

def orElse (j other : Json) : Json :=
  if j.isGiven then j else other

def ofText? : Option String → Json
  | some s => .text s
  | none => .null

def ofTexts (texts : List String) : Json :=
  .list (texts.map .text)

end Json

end Soql
