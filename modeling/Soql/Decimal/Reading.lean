import Soql.Text.Blank
import Soql.Text.Digit

namespace Soql.Decimal

open Soql.Text

def digitLimit : Nat :=
  4300

def isShort (n : Int) : Bool :=
  (Nat.toDigits 10 n.natAbs).length ≤ digitLimit

/-- The value of `digits * 10 ^ exponent`; the power is brought near the range of the floating-point
numbers first, since beyond it only nought and infinity remain. -/
def ofDigits (digits : List Char) (exponent : Int) : Float :=
  let digits := digits.dropWhile (digitValue · == some 0)
  let n := decimalValue digits
  if n == 0 then 0.0
  else if exponent + digits.length > 400 then 1.0 / 0.0
  else if exponent + digits.length < -400 then 0.0
  else Float.ofScientific n (exponent < 0) exponent.natAbs

/-- Blanks that may stand around a number: the information separators may not. -/
def isNumberBlank (c : Char) : Bool :=
  isBlank c && !(28 ≤ c.toNat && c.toNat ≤ 31)

/-- Digits with single underscores between them, without the underscores, and what follows. -/
def digitRun : List Char → List Char × List Char
  | c :: '_' :: d :: rest =>
    if isDecimal c && isDecimal d then
      let (digits, rest) := digitRun (d :: rest)
      (c :: digits, rest)
    else if isDecimal c then ([c], '_' :: d :: rest)
    else ([], c :: '_' :: d :: rest)
  | c :: rest =>
    if isDecimal c then
      let (digits, rest) := digitRun rest
      (c :: digits, rest)
    else ([], c :: rest)
  | [] => ([], [])

def sign : List Char → Bool × List Char
  | '-' :: rest => (true, rest)
  | '+' :: rest => (false, rest)
  | rest => (false, rest)

/-- Reads a whole number: blanks, a sign, digits of any script. -/
def readInt (s : String) : Option Int :=
  let (negative, rest) := sign (dropEnds isNumberBlank s.toList)
  let (digits, rest) := digitRun rest
  if digits.isEmpty || !rest.isEmpty || digits.length > digitLimit then none
  else
    let n : Int := decimalValue digits
    some (if negative then -n else n)

def readPower : List Char → Option Int
  | [] => some 0
  | e :: rest =>
    if e == 'e' || e == 'E' then
      let (negative, rest) := sign rest
      let (digits, rest) := digitRun rest
      if digits.isEmpty || !rest.isEmpty then none
      else
        let n : Int := decimalValue digits
        some (if negative then -n else n)
    else none

def readUnsigned (s : List Char) : Option Float :=
  let word := s.map Char.toLower
  if word == "inf".toList || word == "infinity".toList then some (1.0 / 0.0)
  else if word == "nan".toList then some (0.0 / 0.0)
  else
    let (whole, rest) := digitRun s
    let (places, rest) := match rest with
      | '.' :: rest => digitRun rest
      | rest => ([], rest)
    if whole.isEmpty && places.isEmpty then none
    else (readPower rest).map fun power => ofDigits (whole ++ places) (power - places.length)

/-- Reads a number: blanks, a sign, digits of any script with at most one point, a power of ten, or
one of the words for infinity and for what is not a number. -/
def readFloat (s : String) : Option Float :=
  let (negative, rest) := sign (dropEnds isNumberBlank s.toList)
  (readUnsigned rest).map fun x => if negative then -x else x

end Soql.Decimal
