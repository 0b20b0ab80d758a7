import Soql.Decimal.Binary

namespace Soql.Decimal

def padded (width n : Nat) : String :=
  let digits := Nat.toDigits 10 n
  .ofList (List.replicate (width - digits.length) '0' ++ digits)

def pointed (places n : Nat) : String :=
  toString (n / tenTo places) ++ "." ++ padded places (n % tenTo places)

def inPlaces (places m : Nat) (q : Int) : Nat :=
  if q < 0 then roundDiv (m * tenTo places) (twoTo (-q).toNat)
  else m * tenTo places * twoTo q.toNat

/-- A number with a fixed count of places; the sign of a negative nought is kept. -/
def fixed (places : Nat) (x : Float) : String :=
  match Binary.of x with
  | .notANumber => "nan"
  | .infinite negative => if negative then "-inf" else "inf"
  | .finite negative m q =>
    (if negative then "-" else "") ++ pointed places (inPlaces places m q)

def roundedTo (places : Nat) (x : Float) : Float :=
  match Binary.of x with
  | .finite negative m q =>
    let size := Float.ofScientific (inPlaces places m q) true places
    if negative then -size else size
  | _ => x

end Soql.Decimal
