namespace Soql.Decimal

def twoTo (n : Nat) : Nat :=
  Nat.pow 2 n

def tenTo (n : Nat) : Nat :=
  Nat.pow 10 n

/-- What a floating-point number stands for: a finite one is `± mantissa * 2 ^ exponent`. -/
inductive Binary where
  | notANumber
  | infinite (negative : Bool)
  | finite (negative : Bool) (mantissa : Nat) (exponent : Int)
  deriving Repr, DecidableEq

/-- Takes a number of 64 bits apart: sign, eleven bits of exponent, fifty-two of fraction. -/
def Binary.ofBits (bits : Nat) : Binary :=
  let negative := bits / twoTo 63 == 1
  let scale : Nat := bits / twoTo 52 % 2048
  let fraction := bits % twoTo 52
  if scale == 2047 then
    if fraction == 0 then .infinite negative else .notANumber
  else if scale == 0 then .finite negative fraction (-1074)
  else .finite negative (fraction + twoTo 52) ((scale : Int) - 1075)

def Binary.of (x : Float) : Binary :=
  .ofBits x.toBits.toNat

/-- A quotient rounded to the nearest whole number, a tie going to the even one. -/
def roundDiv (num den : Nat) : Nat :=
  let whole := num / den
  let twice := 2 * (num % den)
  if twice < den then whole
  else if twice > den then whole + 1
  else if whole % 2 == 0 then whole else whole + 1

def unrounded (n : Nat) : Float.Model.UnpackedFloat :=
  if h : n = 0 then .zero .positive else .finite .positive n 0 (Nat.pos_of_ne_zero h)

/-- The quotient of two whole numbers, which is rounded only once. -/
def quotient (a b : Nat) : Float :=
  .ofModel (.pack (.div .binary64 (unrounded a) (unrounded b)))

/-- The whole number that a floating-point number stands for, cut towards nought; nothing for the
infinite ones and for what is not a number. -/
def truncated (x : Float) : Option Int :=
  match Binary.of x with
  | .finite negative m q =>
    let size : Nat := if q < 0 then m / twoTo (-q).toNat else m * twoTo q.toNat
    some (if negative then -(size : Int) else size)
  | _ => none

end Soql.Decimal
