import Soql.Json.Basic
import Soql.Decimal.Reading
import Soql.Text.Half

namespace Soql.Json

open Soql.Text Soql.Decimal

def isGap (c : Char) : Bool :=
  c == ' ' || c == '\t' || c == '\n' || c == '\r'

def skipGap (s : List Char) : List Char :=
  s.dropWhile isGap

def hexValue (c : Char) : Option Nat :=
  if c.isDigit then some (c.toNat - 0x30)
  else if 'a' ≤ c && c ≤ 'f' then some (c.toNat - 0x57)
  else if 'A' ≤ c && c ≤ 'F' then some (c.toNat - 0x37)
  else none

def hexUnit : List Char → Option (Nat × List Char)
  | a :: b :: c :: d :: rest => do
    let a ← hexValue a
    let b ← hexValue b
    let c ← hexValue c
    let d ← hexValue d
    return (((a * 16 + b) * 16 + c) * 16 + d, rest)
  | _ => none

def lowUnit : List Char → Option (Nat × List Char)
  | '\\' :: 'u' :: rest =>
    match hexUnit rest with
    | some (n, rest) => if 0xdc00 ≤ n && n ≤ 0xdfff then some (n, rest) else none
    | none => none
  | _ => none

/-- The character of one escaped unit, or of two that belong together, or half a character on its own. -/
def escapedUnit (s : List Char) : Option (Char × List Char) :=
  match hexUnit s with
  | none => none
  | some (n, rest) =>
    if 0xd800 ≤ n && n ≤ 0xdbff then
      match lowUnit rest with
      | some (low, rest) => some (Char.ofNat (0x10000 + (n - 0xd800) * 0x400 + (low - 0xdc00)), rest)
      | none => some (half n, rest)
    else if 0xdc00 ≤ n && n ≤ 0xdfff then some (half n, rest)
    else some (Char.ofNat n, rest)

def escapedChar : Char → Option Char
  | '"' => some '"'
  | '\\' => some '\\'
  | '/' => some '/'
  | 'b' => some '\x08'
  | 'f' => some '\x0c'
  | 'n' => some '\n'
  | 'r' => some '\r'
  | 't' => some '\t'
  | _ => none

/-- The characters of a text up to its closing quote; control characters must be escaped. -/
def textChars : Nat → List Char → Option (List Char × List Char)
  | 0, _ => none
  | fuel + 1, s =>
    match s with
    | [] => none
    | '"' :: rest => some ([], rest)
    | '\\' :: 'u' :: rest => do
      let (c, rest) ← escapedUnit rest
      let (cs, rest) ← textChars fuel rest
      return (c :: cs, rest)
    | '\\' :: e :: rest => do
      let c ← escapedChar e
      let (cs, rest) ← textChars fuel rest
      return (c :: cs, rest)
    | c :: rest => do
      if c == '\\' || c.toNat < 0x20 then none
      let (cs, rest) ← textChars fuel rest
      return (c :: cs, rest)

def wholeDigits : List Char → Option (List Char × List Char)
  | '0' :: rest => some (['0'], rest)
  | s =>
    let digits := s.takeWhile Char.isDigit
    if digits.isEmpty then none else some (digits, s.dropWhile Char.isDigit)

/-- The places after the point of a number; a point without a digit is not part of it. -/
def placeDigits : List Char → Option (List Char × List Char)
  | '.' :: rest =>
    let digits := rest.takeWhile Char.isDigit
    if digits.isEmpty then none else some (digits, rest.dropWhile Char.isDigit)
  | _ => none

/-- The power of ten after a number; a letter without a digit is not part of it. -/
def powerDigits : List Char → Option (Int × List Char)
  | e :: rest =>
    if e == 'e' || e == 'E' then
      let (negative, rest) := sign rest
      let digits := rest.takeWhile Char.isDigit
      if digits.isEmpty then none
      else
        let n : Int := decimalValue digits
        some (if negative then -n else n, rest.dropWhile Char.isDigit)
    else none
  | [] => none

/-- A number: whole when it has neither places nor a power of ten. -/
def number (s : List Char) : Option (Json × List Char) := do
  let (negative, rest) := match s with
    | '-' :: rest => (true, rest)
    | rest => (false, rest)
  let (whole, rest) ← wholeDigits rest
  let places := placeDigits rest
  let rest := (places.map (·.2)).getD rest
  let power := powerDigits rest
  let rest := (power.map (·.2)).getD rest
  if places.isNone && power.isNone then
    if whole.length > digitLimit then none
    let n : Int := decimalValue whole
    return (.int (if negative then -n else n), rest)
  else
    let places := (places.map (·.1)).getD []
    let x := ofDigits (whole ++ places) ((power.map (·.1)).getD 0 - places.length)
    return (.float (if negative then -x else x), rest)

def wordValue (s : List Char) : Option (Json × List Char) :=
  let candidates : List (String × Json) :=
    [("null", .null), ("true", .bool true), ("false", .bool false), ("NaN", .float (0.0 / 0.0)),
      ("Infinity", .float (1.0 / 0.0)), ("-Infinity", .float (-1.0 / 0.0))]
  match candidates.find? fun (word, _) => word.toList.isPrefixOf s with
  | some (word, value) => some (value, s.drop word.length)
  | none => none

mutual

def value : Nat → List Char → Option (Json × List Char)
  | 0, _ => none
  | fuel + 1, s =>
    match s with
    | '"' :: rest => (textChars fuel rest).map fun (cs, rest) => (.text (.ofList cs), rest)
    | '[' :: rest =>
      match skipGap rest with
      | ']' :: rest => some (.list [], rest)
      | rest => (itemList fuel rest).map fun (items, rest) => (.list items, rest)
    | '\x7b' :: rest =>
      match skipGap rest with
      | '\x7d' :: rest => some (.record [], rest)
      | rest => (memberList fuel rest).map fun (members, rest) => (ofMembers members, rest)
    | s => (wordValue s).orElse fun _ => number s

def itemList : Nat → List Char → Option (List Json × List Char)
  | 0, _ => none
  | fuel + 1, s => do
    let (item, rest) ← value fuel s
    match skipGap rest with
    | ']' :: rest => return ([item], rest)
    | ',' :: rest =>
      let (items, rest) ← itemList fuel (skipGap rest)
      return (item :: items, rest)
    | _ => none

def memberList : Nat → List Char → Option (List (String × Json) × List Char)
  | 0, _ => none
  | fuel + 1, s => do
    match s with
    | '"' :: rest =>
      let (name, rest) ← textChars fuel rest
      match skipGap rest with
      | ':' :: rest =>
        let (item, rest) ← value fuel (skipGap rest)
        match skipGap rest with
        | '\x7d' :: rest => return ([(.ofList name, item)], rest)
        | ',' :: rest =>
          let (others, rest) ← memberList fuel (skipGap rest)
          return ((.ofList name, item) :: others, rest)
        | _ => none
      | _ => none
    | _ => none

end

def parse (s : String) : Option Json :=
  let cs := s.toList
  match value (2 * cs.length + 2) (skipGap cs) with
  | some (j, rest) => if (skipGap rest).isEmpty then some j else none
  | none => none

end Soql.Json
