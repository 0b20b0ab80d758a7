import Soql.Text.Casing
import Soql.Text.Blank
import Soql.Text.Word

/-!
Patterns over the words of a request. A pattern has at each place a list of places where it can end,
the preferred one first; optional parts are taken when they can be and runs are as long as they can
be, so that the first end is the one that a reader would choose.
-/

namespace Soql.Text

/-- A place in a text: the character before it, and what follows. -/
structure Place where
  before : Option Char
  rest : List Char

inductive Pattern where
  /-- one character of a kind -/
  | one (p : Char → Bool)
  /-- any number of characters of a kind -/
  | many (p : Char → Bool)
  /-- nothing -/
  | empty
  | seq (first second : Pattern)
  | either (first second : Pattern)
  /-- the pattern, or nothing -/
  | maybe (part : Pattern)
  /-- a place between a word character and something else -/
  | edge
  /-- the pattern, whose text is kept -/
  | keep (part : Pattern)
  /-- a place that the pattern does not follow -/
  | notBefore (part : Pattern)
  /-- a place that no character of a kind precedes -/
  | notAfter (p : Char → Bool)

namespace Pattern

def runEnds (p : Char → Bool) (before : Option Char) : List Char → List Place
  | [] => [⟨before, []⟩]
  | c :: rest =>
    if p c then runEnds p (some c) rest ++ [⟨before, c :: rest⟩] else [⟨before, c :: rest⟩]

def atEdge (place : Place) : Bool :=
  let wordBefore := place.before.any isWord
  let wordAfter := place.rest.head?.any isWord
  wordBefore != wordAfter

def between (start finish : Place) : String :=
  .ofList (start.rest.take (start.rest.length - finish.rest.length))

/-- The ends of a pattern from a place, the preferred one first, with the texts kept so far. -/
def ends : Pattern → Place × List String → List (Place × List String)
  | one p, (⟨_, c :: rest⟩, kept) => if p c then [(⟨some c, rest⟩, kept)] else []
  | one _, (⟨_, []⟩, _) => []
  | many p, (place, kept) => (runEnds p place.before place.rest).map (·, kept)
  | empty, state => [state]
  | seq first second, state => (ends first state).flatMap (ends second)
  | either first second, state => ends first state ++ ends second state
  | maybe part, state => ends part state ++ [state]
  | edge, state => if atEdge state.1 then [state] else []
  | keep part, state =>
    (ends part state).map fun (place, kept) => (place, kept ++ [between state.1 place])
  | notBefore part, state => if (ends part state).isEmpty then [state] else []
  | notAfter p, state => if state.1.before.any p then [] else [state]

/-- A match: its text and the texts kept. -/
structure Found where
  text : String
  kept : List String

def matchAt (pattern : Pattern) (place : Place) : Option (Found × Nat) :=
  (ends pattern (place, [])).head?.map fun (finish, kept) =>
    (⟨between place finish, kept⟩, place.rest.length - finish.rest.length)

/-- The matches from left to right, none of them empty; the counter is the number of characters that
the last match still covers. -/
def matchesFrom (pattern : Pattern) : Nat → Option Char → List Char → List Found
  | _, _, [] => []
  | covered + 1, _, c :: rest => matchesFrom pattern covered (some c) rest
  | 0, before, c :: rest =>
    match matchAt pattern ⟨before, c :: rest⟩ with
    | some (found, taken) => found :: matchesFrom pattern (taken - 1) (some c) rest
    | none => matchesFrom pattern 0 (some c) rest

def findAll (pattern : Pattern) (s : String) : List Found :=
  matchesFrom pattern 0 none s.toList

def isIn (pattern : Pattern) (s : String) : Bool :=
  !(findAll pattern s).isEmpty

def row : List Pattern → Pattern
  | [] => empty
  | [last] => last
  | first :: rest => seq first (row rest)

def anyOf : List Pattern → Pattern
  | [] => one fun _ => false
  | [last] => last
  | first :: rest => either first (anyOf rest)

def atLeastOne (p : Char → Bool) : Pattern :=
  seq (one p) (many p)

def exactly (s : String) : Pattern :=
  row (s.toList.map fun c => one (· == c))

def anyCase (s : String) : Pattern :=
  row (s.toList.map fun c => one (sameFolded c))

def blanks : Pattern :=
  atLeastOne isBlank

def word : Pattern :=
  atLeastOne isWord

end Pattern

end Soql.Text
