import Soql.Decimal.Binary

namespace Soql.Decimal

structure Scientific where
  digits : Nat
  exponent : Int
  deriving Repr, DecidableEq

def scaledPair (a : Nat) (t : Int) (b : Nat) (q : Int) : Nat × Nat :=
  (a * tenTo t.toNat * twoTo (-q).toNat, b * twoTo q.toNat * tenTo (-t).toNat)

/-- The reals that are nearest to `m * 2 ^ q` among the floating-point numbers, in quarters of the
last binary place; below a power of two the numbers lie twice as close. -/
def readsBackAs (m : Nat) (q : Int) (d : Nat) (t : Int) : Bool :=
  let low := if m == twoTo 52 && q > -1074 then 4 * m - 1 else 4 * m - 2
  let high := 4 * m + 2
  let (a, l) := scaledPair d t low (q - 2)
  let (a', h) := scaledPair d t high (q - 2)
  -- The ends of the interval belong to it when the mantissa is even.
  if m % 2 == 0 then l ≤ a && a' ≤ h else l < a && a' < h

/-- The distance of a decimal from `m * 2 ^ q`, in a unit common to all decimals of one exponent. -/
def gap (m : Nat) (q : Int) (d : Nat) (t : Int) : Nat :=
  let (a, b) := scaledPair d t m q
  (a - b) + (b - a)

/-- Of the two decimals with exponent `t` around `m * 2 ^ q`, the nearer one that reads back. -/
def onGrid (m : Nat) (q t : Int) : Option Nat :=
  let (unit, size) := scaledPair 1 t m q
  let below := size / unit
  let hits := [below, below + 1].filter fun d => 0 < d && readsBackAs m q d t
  match hits with
  -- Both neighbours read back: the nearer one is taken, and of two as near the even one.
  | [d, d'] =>
    let near := gap m q d t
    let far := gap m q d' t
    some (if near < far then d else if far < near then d' else if d % 2 == 0 then d else d')
  | d :: _ => some d
  | [] => none

/-- The exponent of the leading decimal digit of a value, sought from a starting guess upwards. -/
def leading (m : Nat) (q : Int) : Nat → Int → Int
  | 0, guess => guess
  | fuel + 1, guess =>
    let (unit, size) := scaledPair 1 (guess + 1) m q
    if unit ≤ size then leading m q fuel (guess + 1) else guess

def shortestFrom (m : Nat) (q lead : Int) : Nat → Nat → Scientific
  | 0, count => ⟨(onGrid m q (lead - count)).getD 0, lead - count⟩
  | fuel + 1, count =>
    match onGrid m q (lead - count) with
    | some d => ⟨d, lead - count⟩
    | none => shortestFrom m q lead fuel (count + 1)

def Scientific.reduced : Nat → Scientific → Scientific
  | 0, s => s
  | fuel + 1, s =>
    if s.digits % 10 == 0 && 0 < s.digits then
      Scientific.reduced fuel ⟨s.digits / 10, s.exponent + 1⟩
    else s

def shortest (m : Nat) (q : Int) : Scientific :=
  if m == 0 then ⟨0, 0⟩
  else
    (shortestFrom m q (leading m q 700 (-330)) 17 0).reduced 20

/-- The digits of a number that lies between a ten-thousandth and ten to the sixteenth are placed
around the point, with at least one place; others have one digit before the point and an exponent of
at least two digits. -/
def Scientific.text (s : Scientific) : String :=
  let digits := Nat.toDigits 10 s.digits
  let lead : Int := s.exponent + digits.length - 1
  if s.digits == 0 then "0.0"
  else if -4 ≤ lead && lead < 16 then
    if lead < 0 then
      "0." ++ .ofList (List.replicate (-lead - 1).toNat '0' ++ digits)
    else
      let whole := lead.toNat + 1
      let digits := digits ++ List.replicate (whole - digits.length) '0'
      let places := digits.drop whole
      .ofList (digits.take whole ++ '.' :: if places.isEmpty then ['0'] else places)
  else
    let power := Nat.toDigits 10 lead.natAbs
    .ofList (digits.take 1 ++ (if digits.length > 1 then '.' :: digits.drop 1 else []) ++
      'e' :: (if lead < 0 then '-' else '+') :: (if power.length < 2 then '0' :: power else power))

def shortestText (x : Float) : String :=
  match Binary.of x with
  | .notANumber => "nan"
  | .infinite negative => if negative then "-inf" else "inf"
  | .finite negative m q => (if negative then "-" else "") ++ (shortest m q).text

end Soql.Decimal
