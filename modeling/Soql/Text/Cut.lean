import Soql.Text.Blank

namespace Soql.Text

def splitAt (sep : Char) (s : String) : List String :=
  (pieces (· == sep) s.toList).map .ofList

/-- A text occurs somewhere inside another one; the empty text does in any. -/
def occurs (sub : List Char) : List Char → Bool
  | [] => sub.isEmpty
  | c :: rest => sub.isPrefixOf (c :: rest) || occurs sub rest

def isPartOf (sub s : String) : Bool :=
  occurs sub.toList s.toList

def beginsWith (s start : String) : Bool :=
  start.toList.isPrefixOf s.toList

def endsIn (s finish : String) : Bool :=
  finish.toList.isSuffixOf s.toList

def cutAtFirst (sub : List Char) : List Char → Option (List Char × List Char)
  | [] => if sub.isEmpty then some ([], []) else none
  | c :: rest =>
    if sub.isPrefixOf (c :: rest) then some ([], (c :: rest).drop sub.length)
    else (cutAtFirst sub rest).map fun (before, after) => (c :: before, after)

/-- Replaces each occurrence of a non-empty text, from left to right; the counter is the number of
characters that the last occurrence still covers. -/
def replaceFrom (old new : List Char) : Nat → List Char → List Char
  | _, [] => []
  | covered + 1, _ :: rest => replaceFrom old new covered rest
  | 0, c :: rest =>
    if old.isPrefixOf (c :: rest) then new ++ replaceFrom old new (old.length - 1) rest
    else c :: replaceFrom old new 0 rest

def replaceAll (old new s : List Char) : List Char :=
  replaceFrom old new 0 s

def joined (sep : String) (parts : List String) : String :=
  sep.intercalate parts

def firstChars (n : Nat) (s : String) : String :=
  .ofList (s.toList.take n)

def afterChars (n : Nat) (s : String) : String :=
  .ofList (s.toList.drop n)

end Soql.Text
