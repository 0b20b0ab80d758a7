import Soql.Decimal.Reading
import Soql.Text.Word

namespace Soql.Text

inductive TemplateError where
  /-- a backslash before something that it gives no meaning to -/
  | malformed
  /-- the name of a part of what is found, which has no named parts -/
  | noGroup
  deriving DecidableEq, Repr, Inhabited

/-- What is written in place of a text that is found: characters, and, where there is none, the text
itself. -/
abbrev Template := List (Option Char)

namespace Template

def fill (t : Template) (found : List Char) : List Char :=
  t.flatMap fun
    | some c => [c]
    | none => found

def isOctal (c : Char) : Bool :=
  '0' ≤ c && c ≤ '7'

def octalValue (digits : List Char) : Nat :=
  digits.foldl (fun total c => 8 * total + (c.toNat - '0'.toNat)) 0

/-- The control characters, and the backslash itself, by what is written after a backslash. -/
def control? : Char → Option Char
  | 'a' => some '\x07'
  | 'b' => some '\x08'
  | 'f' => some '\x0c'
  | 'n' => some '\n'
  | 'r' => some '\r'
  | 't' => some '\t'
  | 'v' => some '\x0b'
  | '\\' => some '\\'
  | _ => none

def isGroupName : List Char → Bool
  | [] => false
  | c :: rest => isWord c && !isDecimal c && rest.all isWord

/-- Reads a group, by its name or its number. The only group is all that is found, which is nought. -/
def group : List Char → Except TemplateError (Template × Nat)
  | '<' :: rest =>
    let name := rest.takeWhile (· != '>')
    let after := rest.drop name.length
    if after.isEmpty then .error .malformed
    else if isGroupName name then
      -- What follows is looked at before the name is.
      .error (if after.drop 1 == ['\\'] then .malformed else .noGroup)
    else if Decimal.readInt (.ofList name) == some 0 then .ok ([none], name.length + 2)
    else .error .malformed
  | _ => .error .malformed

/-- Reads what a backslash stands in front of: what is written for it, and how many characters it takes.
Three octal digits, or any after a nought, are the number of a character. -/
def escape : List Char → Except TemplateError (Template × Nat)
  | [] => .error .malformed
  | 'g' :: rest => (group rest).map fun (written, taken) => (written, taken + 1)
  | '0' :: rest =>
    let digits := (rest.take 2).takeWhile isOctal
    .ok ([some (.ofNat (octalValue digits))], digits.length + 1)
  | c :: rest =>
    if c.isDigit then
      let digits := c :: rest.take 2
      if digits.length == 3 && digits.all isOctal && octalValue digits ≤ 0xff then
        .ok ([some (.ofNat (octalValue digits))], 3)
      else .error .malformed
    else match control? c with
      | some d => .ok ([some d], 1)
      | none => if isLatin c then .error .malformed else .ok ([some '\\', some c], 1)

/-- Reads a template; the counter is the number of characters that the last escape still covers. -/
def readFrom : Nat → List Char → Except TemplateError Template
  | _, [] => .ok []
  | covered + 1, _ :: rest => readFrom covered rest
  | 0, c :: rest =>
    if c == '\\' then do
      let (written, taken) ← escape rest
      return written ++ (← readFrom taken rest)
    else return some c :: (← readFrom 0 rest)

def read (s : List Char) : Except TemplateError Template :=
  readFrom 0 s

theorem fill_literal (s found : List Char) : fill (s.map some) found = s := by
  induction s with
  | nil => rfl
  | cons c s ih =>
    rw [List.map_cons, fill, List.flatMap_cons]
    exact congrArg (c :: ·) ih

/-- Without a backslash a template is what it reads. -/
theorem read_literal {s : List Char} (h : '\\' ∉ s) : read s = .ok (s.map some) := by
  induction s with
  | nil => rfl
  | cons c s ih =>
    rw [List.mem_cons, not_or] at h
    have hc : (c == '\\') = false := beq_false_of_ne (Ne.symm h.1)
    have hrest : readFrom 0 s = .ok (s.map some) := ih h.2
    rw [read, readFrom, hc, hrest]
    rfl

end Template

end Soql.Text
