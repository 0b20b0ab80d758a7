import Soql.Failure
import Soql.Text.Distance
import Soql.Text.Fence
import Soql.Vocabulary

namespace Soql.SearchTerm

open Text

def special : List Char :=
  ['\x7b', '\x7d', '\\', '\x27', '"', '?', '&', '|', '!', '(', ')', '^', '~', '*', ':']

def operators : List (List Char) :=
  ["AND", "OR", "NOT"].map String.toList

def operatorLength (s : List Char) : Option Nat :=
  (operators.find? fun word => beginsFolded word s && !(s.drop word.length).head?.any isWord).map
    List.length

/-- A text without the operators that stand on their own; the counter is the number of characters that
the last one still covers. -/
def withoutOperators : Nat → (afterWord : Bool) → List Char → List Char
  | _, _, [] => []
  | covered + 1, _, c :: rest => withoutOperators covered (isWord c) rest
  | 0, afterWord, c :: rest =>
    match if afterWord then none else operatorLength (c :: rest) with
    | some length => withoutOperators (length - 1) (isWord c) rest
    | none => c :: withoutOperators 0 (isWord c) rest

def minLength : Nat :=
  2

/-- A term made harmless: without special characters and operators, and with single spaces; one that
is then too short is empty. -/
def sanitize (term : String) : String :=
  let s := term.toList.filter (!special.contains ·)
  let s := trim (squeeze (withoutOperators 0 false s))
  if s.length < minLength then "" else .ofList s

def isValid (term : String) : Bool :=
  term.length ≥ minLength && term.toList.any Char.isAlphanum

def returning (limit : Int) (object : String) : String :=
  let fields := ["Id", "Name"] ++ (Vocabulary.searchFields.lookup object).getD []
  object ++ "(" ++ joined ", " fields ++ " LIMIT " ++ toString limit ++ ")"

def searchText (term : String) (objects : List String) (limit : Int) : String :=
  "FIND \x7b" ++ term ++ "\x7d IN NAME FIELDS RETURNING " ++
    joined ", " (objects.map (returning limit))

def search (term : String) (objects : List String) (limit : Int) : Except Failure String :=
  if isValid term then .ok (searchText term objects limit) else .error (.invalidSearchTerm term)

def windows (width : Nat) (words : List String) : List String :=
  (List.range (words.length + 1 - width)).map fun i => joined " " ((words.drop i).take width)

/-- The better of two matches: the more alike, or the one with fewer edits. -/
def better (best next : Float × Nat) : Float × Nat :=
  if next.1 > best.1 || (next.1 == best.1 && next.2 < best.2) then next else best

/-- How well a term matches a name, or as many words in a row of it as the term has: likeness and
number of edits. -/
def likenessToName (term name : String) : Float × Nat :=
  let term := trimmed (lower term)
  let name := trimmed (lower name)
  let nameWords := words name
  let width := (words term).length
  let options :=
    name :: if 0 < width && width < nameWords.length then windows width nameWords else []
  (options.map fun o => (similarity term o, editDistance term o)).foldl better
    (0.0, max term.length 1)

end Soql.SearchTerm
