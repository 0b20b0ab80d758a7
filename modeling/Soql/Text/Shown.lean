import Soql.Text.Half
import Soql.Text.Printable

namespace Soql.Text

def hexDigits (width n : Nat) : List Char :=
  let digits := Nat.toDigits 16 n
  List.replicate (width - digits.length) '0' ++ digits

def shownChar (quote c : Char) : List Char :=
  let n := codePoint c
  if c == quote || c == '\\' then ['\\', c]
  else if c == '\t' then ['\\', 't']
  else if c == '\n' then ['\\', 'n']
  else if c == '\r' then ['\\', 'r']
  else if isPrintable c then [c]
  else if n ≤ 0xff then '\\' :: 'x' :: hexDigits 2 n
  else if n ≤ 0xffff then '\\' :: 'u' :: hexDigits 4 n
  else '\\' :: 'U' :: hexDigits 8 n

/-- A text between single quotes, or between double ones when it holds a single quote and no double
one. -/
def shown (s : String) : String :=
  let cs := s.toList
  let quote := if cs.contains '\x27' && !cs.contains '\x22' then '\x22' else '\x27'
  .ofList (quote :: cs.flatMap (shownChar quote) ++ [quote])

end Soql.Text
