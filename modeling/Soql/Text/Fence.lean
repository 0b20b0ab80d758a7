import Soql.Text.Casing
import Soql.Text.Cut
import Soql.Text.Path

namespace Soql.Text

def fence : List Char :=
  List.replicate 3 (Char.ofNat 0x60)

def afterLastNewline (s : List Char) : Option (List Char) :=
  let blanks := s.takeWhile isBlank
  if blanks.contains '\n' then
    let kept := (blanks.reverse.takeWhile (· != '\n')).length
    some (s.drop (blanks.length - kept))
  else none

def blockContent (s : List Char) : Option (List Char × List Char) :=
  (afterLastNewline s).bind (cutAtFirst fence)

/-- The content of the block that a text begins with, when its tag names the query language. -/
def taggedBlock (s : List Char) : Option (List Char) :=
  if fence.isPrefixOf s then
    let tag := s.drop fence.length
    let afterTag := (["soql", "sql"].map String.toList).findSome? fun name =>
      if beginsFolded name tag then (blockContent (tag.drop name.length)).map (·.1) else none
    afterTag
  else none

def firstTaggedBlock : List Char → Option (List Char)
  | [] => none
  | c :: rest => (taggedBlock (c :: rest)).orElse fun _ => firstTaggedBlock rest

/-- The content of the block that a text begins with, under any tag of letters, and the number of
characters that the block takes. -/
def anyBlock (s : List Char) : Option (List Char × Nat) :=
  if fence.isPrefixOf s then
    (blockContent ((s.drop fence.length).dropWhile isLatin)).map fun (content, after) =>
      (content, s.length - after.length)
  else none

/-- The contents of the fenced blocks, one after the other; the counter is the number of characters
that the last block still covers. -/
def anyBlocks : Nat → List Char → List (List Char)
  | _, [] => []
  | covered + 1, _ :: rest => anyBlocks covered rest
  | 0, c :: rest =>
    match anyBlock (c :: rest) with
    | some (content, taken) => content :: anyBlocks (taken - 1) rest
    | none => anyBlocks 0 rest

def fromWord (word : List Char) : (afterWord : Bool) → List Char → Option (List Char)
  | _, [] => none
  | afterWord, c :: rest =>
    let ends := match (c :: rest).drop word.length with
      | [] => true
      | d :: _ => !isWord d
    if !afterWord && beginsFolded word (c :: rest) && ends then some (c :: rest)
    else fromWord word (isWord c) rest

def hasWord (word : String) (s : List Char) : Bool :=
  (fromWord word.toList false s).isSome

/-- A bare query ends here: at a blank line, a fence, the end, or the line end before it. -/
def queryEnds : List Char → Bool
  | [] => true
  | c :: rest =>
    (c == '\n' && (rest.isEmpty || (rest.takeWhile isBlank).contains '\n')) ||
      fence.isPrefixOf (c :: rest)

def upToQueryEnd : List Char → List Char
  | [] => []
  | c :: rest => if queryEnds (c :: rest) then [] else c :: upToQueryEnd rest

/-- The first bare query: from the first word that begins one, if the word for its source follows. -/
def bareQuery (s : List Char) : Option (List Char) := do
  let select ← fromWord "SELECT".toList false s
  let tail ← fromWord "FROM".toList true (select.drop 6)
  let head := select.take (select.length - tail.length + 4)
  return head ++ upToQueryEnd (tail.drop 4)

def queryIn (reply : String) : Option String :=
  let s := reply.toList
  if s.isEmpty then none
  else
    let found := (firstTaggedBlock s).orElse fun _ =>
      ((anyBlocks 0 s).find? (hasWord "SELECT")).orElse fun _ => bareQuery s
    found.map fun block => bareStatement (.ofList block)

def withoutFence (s : List Char) : List Char :=
  let s := trim s
  let opened :=
    if fence.isPrefixOf s then
      match cutAtFirst ['\n'] s with
      | some (_, after) => after
      | none => s.dropWhile (· == Char.ofNat 0x60)
    else s
  trim (if fence.isSuffixOf opened then opened.take (opened.length - fence.length) else opened)

def unfenced (reply : String) : String :=
  .ofList (withoutFence reply.toList)

end Soql.Text
