import Soql.Json.Basic
import Soql.Table
import Soql.Text.Digit
import Soql.Text.Fence

namespace Soql

open Text

structure Record where
  object : String
  id : String
  name : String
  fields : List (String × Json) := []
  deriving Inhabited

namespace Search

def findClause (s : List Char) : Option (List Char × List Char) :=
  if beginsFolded "FIND".toList s then
    match (s.drop 4).dropWhile isBlank with
    | '\x7b' :: rest => cutAtFirst ['\x7d'] rest
    | _ => none
  else none

def firstFindClause : List Char → Option (List Char × List Char)
  | [] => none
  | c :: rest => (findClause (c :: rest)).orElse fun _ => firstFindClause rest

/-- A name with something in parentheses after it, and the number of characters that they take. -/
def target (s : List Char) : Option (List Char × List Char × Nat) :=
  match s with
  | c :: rest =>
    if isIdentFirst c then
      match (rest.dropWhile isIdentRest).dropWhile isBlank with
      | '(' :: inside =>
        (cutAtFirst [')'] inside).map fun (inner, after) =>
          (c :: rest.takeWhile isIdentRest, inner, s.length - after.length)
      | _ => none
    else none
  | [] => none

/-- The names with something in parentheses after them; the counter is the number of characters that
the last one still covers. -/
def targets : Nat → List Char → List (List Char × List Char)
  | _, [] => []
  | covered + 1, _ :: rest => targets covered rest
  | 0, c :: rest =>
    match target (c :: rest) with
    | some (name, inner, taken) => (name, inner) :: targets (taken - 1) rest
    | none => targets 0 rest

def limitIn (afterWord : Bool) : List Char → Option Nat
  | [] => none
  | c :: rest =>
    let tail := (c :: rest).drop 5
    let number := (tail.dropWhile isBlank).takeWhile isDecimal
    if !afterWord && beginsFolded "LIMIT".toList (c :: rest) && tail.head?.any isBlank &&
        !number.isEmpty then
      some (decimalValue number)
    else limitIn (isWord c) rest

def usualLimit : Nat :=
  200

def nameWords (name : String) : List (List Char) :=
  (runsBetween (!isWord ·) name.toList).map lowerChars

def hasWords (words : List (List Char)) (name : String) : Bool :=
  words.all fun word => (nameWords name).any word.isPrefixOf

/-- The records of the wanted objects whose names match, in order, for each object only as many as
its limit; the counts tell how many were taken. -/
def select (limits : List (String × Nat)) (words : List (List Char)) :
    (counts : List (String × Nat)) → List Record → List Record
  | _, [] => []
  | counts, r :: rest =>
    let count := (Table.find? r.object counts).getD 0
    match Table.find? r.object limits with
    | some limit =>
      if count < limit && hasWords words r.name then
        r :: select limits words (Table.put r.object (count + 1) counts) rest
      else select limits words counts rest
    | none => select limits words counts rest

def run (records : List Record) (text : String) : List Record :=
  match firstFindClause text.toList with
  | none => []
  | some (term, rest) =>
    let words := (runsBetween isBlank term).map lowerChars
    let limits := Table.putAll ((targets 0 rest).map fun (name, inner) =>
      (String.ofList name, (limitIn false inner).getD usualLimit)) []
    select limits words [] records

end Search

end Soql
