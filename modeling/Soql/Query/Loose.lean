import Soql.Query.Reference
import Soql.Schema.Basic
import Soql.Text.Fence

namespace Soql.Loose

open Text

def isLetter (c : Char) : Bool :=
  isLatin (fold c)

def mainObjectFrom : (afterWord : Bool) → List Char → Option (List Char)
  | _, [] => none
  | afterWord, c :: rest =>
    let tail := (c :: rest).drop 4
    let name := tail.dropWhile isBlank
    if !afterWord && beginsFolded "FROM".toList (c :: rest) && tail.head?.any isBlank &&
        name.head?.any isLetter then
      some (name.takeWhile fun d => isIdentRest d || isLetter d)
    else mainObjectFrom (isWord c) rest

def mainObject (text : String) : Option String :=
  (mainObjectFrom false text.toList).map .ofList

/-- A name at the start of a text, with at most one further part after a point, if it ends where a
word ends. -/
def nameAt (s : List Char) : Option (List Char) :=
  let name := s.takeWhile isIdentRest
  let after := s.dropWhile isIdentRest
  if !s.head?.any isLatin || after.head?.any isWord then none
  else
    let further := (after.drop 1).takeWhile isIdentRest
    let next := (after.drop 1).dropWhile isIdentRest
    if after.head? == some '.' && !further.isEmpty && !next.head?.any isWord then
      some (name ++ '.' :: further)
    else some name

/-- The names of a text; the counter is the number of characters that the last one still covers. -/
def namesFrom : Nat → (afterWord : Bool) → List Char → List (List Char)
  | _, _, [] => []
  | covered + 1, _, c :: rest => namesFrom covered (isWord c) rest
  | 0, afterWord, c :: rest =>
    if afterWord then namesFrom 0 (isWord c) rest
    else match nameAt (c :: rest) with
      | some name => name :: namesFrom (name.length - 1) (isWord c) rest
      | none => namesFrom 0 (isWord c) rest

def names (text : String) : List String :=
  ((namesFrom 0 false (withoutLiterals text.toList)).map .ofList).filter (!Vocabulary.isKeyword ·)

/-- The given fields that a text mentions, in the order in which it does; of fields that differ in
letter case only, the last one is meant. -/
def columns (text : String) (fields : List String) : List String :=
  let found := (names text).filterMap fun name =>
    let key := lower (lastSegment name)
    (fields.reverse.find? fun f => lower f == key).filter (!·.isEmpty)
  found.eraseDups

inductive Loss where
  | noObject
  | unknownObject (name : String)
  deriving DecidableEq, Repr, Inhabited

def Loss.message : Loss → String
  | noObject => "no FROM <object> clause found in draft"
  | unknownObject name => "Object \"" ++ name ++ "\" not found in the metadata graph"

/-- The fields that a saved query selects: those mentioned, then the core fields, or else the id. -/
def selection (text : String) (o : SObject) : List String :=
  let mentioned := columns text o.fieldNames
  let core := (Vocabulary.coreFields.filterMap o.field?).map (·.name)
  let fields := core.foldl (fun fields f => if fields.contains f then fields else fields ++ [f])
    mentioned
  if fields.isEmpty then ["Id"] else fields

def extract (text : String) (resolve : String → Option SObject) : Except Loss Query :=
  match mainObject text with
  | none => .error .noObject
  | some name =>
    match resolve name with
    | none => .error (.unknownObject name)
    | some o => .ok {
        object := o.name
        items := (selection text o).map (.field · none)
        tolerant := true }

end Soql.Loose
