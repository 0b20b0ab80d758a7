import Soql.Json.Basic
import Soql.Decimal.Shortest
import Soql.Text.Shown

namespace Soql.Json

open Soql.Text Soql.Decimal

def escapeLetter : Char → Option Char
  | '"' => some '"'
  | '\\' => some '\\'
  | '\n' => some 'n'
  | '\r' => some 'r'
  | '\t' => some 't'
  | '\x08' => some 'b'
  | '\x0c' => some 'f'
  | _ => none

def escapeUnit (n : Nat) : List Char :=
  '\\' :: 'u' :: hexDigits 4 n

/-- A character of a text in ASCII: beyond the first plane it takes two units. -/
def asciiChar (c : Char) : List Char :=
  match escapeLetter c with
  | some e => ['\\', e]
  | none =>
    let n := codePoint c
    if 0x20 ≤ n && n < 0x7f then [c]
    else if n < 0x10000 then escapeUnit n
    else
      escapeUnit (0xd800 + (n - 0x10000) / 0x400) ++ escapeUnit (0xdc00 + (n - 0x10000) % 0x400)

/-- A character of a text where only quotes, backslashes and controls are escaped. -/
def plainChar (c : Char) : List Char :=
  match escapeLetter c with
  | some e => ['\\', e]
  | none => if c.toNat < 0x20 then escapeUnit c.toNat else [c]

def quotedBy (escape : Char → List Char) (s : String) : String :=
  .ofList ('"' :: s.toList.flatMap escape ++ ['"'])

/-- A floating-point number in the shortest way, with words for the values that are no numbers. -/
def floatText (x : Float) : String :=
  if x.isNaN then "NaN"
  else if x.isInf then if x < 0 then "-Infinity" else "Infinity"
  else shortestText x

mutual

/-- A value on one line; how a floating-point number is written is up to the caller. -/
def line (float : Float → String) : Json → String
  | .null => "null"
  | .bool b => if b then "true" else "false"
  | .int n => toString n
  | .float x => float x
  | .text s => quotedBy plainChar s
  | .list items => "[" ++ ",".intercalate (lineItems float items) ++ "]"
  | .record members => "\x7b" ++ ",".intercalate (lineMembers float members) ++ "\x7d"

def lineItems (float : Float → String) : List Json → List String
  | [] => []
  | j :: rest => line float j :: lineItems float rest

def lineMembers (float : Float → String) : List (String × Json) → List String
  | [] => []
  | (name, j) :: rest => (quotedBy plainChar name ++ ":" ++ line float j) :: lineMembers float rest

end

/-- The start of a line at a depth of nesting: two spaces a level. -/
def lineStart (depth : Nat) : String :=
  "\n" ++ .ofList (List.replicate (2 * depth) ' ')

def bracketed (opening closing : String) (depth : Nat) (lines : List String) : String :=
  if lines.isEmpty then opening ++ closing
  else
    opening ++ lineStart (depth + 1) ++ ("," ++ lineStart (depth + 1)).intercalate lines ++
      lineStart depth ++ closing

mutual

def indentedAt (depth : Nat) : Json → String
  | .null => "null"
  | .bool b => if b then "true" else "false"
  | .int n => toString n
  | .float x => floatText x
  | .text s => quotedBy asciiChar s
  | .list items => bracketed "[" "]" depth (indentedItems (depth + 1) items)
  | .record members => bracketed "\x7b" "\x7d" depth (indentedMembers (depth + 1) members)

def indentedItems (depth : Nat) : List Json → List String
  | [] => []
  | j :: rest => indentedAt depth j :: indentedItems depth rest

def indentedMembers (depth : Nat) : List (String × Json) → List String
  | [] => []
  | (name, j) :: rest =>
    (quotedBy asciiChar name ++ ": " ++ indentedAt depth j) :: indentedMembers depth rest

end

def indented (j : Json) : String :=
  indentedAt 0 j

mutual

/-- A value inside another one that a message shows: texts are quoted. -/
def shownInside : Json → String
  | .null => "None"
  | .bool b => if b then "True" else "False"
  | .int n => toString n
  | .float x => shortestText x
  | .text s => shown s
  | .list items => "[" ++ ", ".intercalate (shownItems items) ++ "]"
  | .record members => "\x7b" ++ ", ".intercalate (shownMembers members) ++ "\x7d"

def shownItems : List Json → List String
  | [] => []
  | j :: rest => shownInside j :: shownItems rest

def shownMembers : List (String × Json) → List String
  | [] => []
  | (name, j) :: rest => (shown name ++ ": " ++ shownInside j) :: shownMembers rest

end

/-- A value as the text that a message shows: a text stands for itself. -/
def plain : Json → String
  | .text s => s
  | j => shownInside j

end Soql.Json
