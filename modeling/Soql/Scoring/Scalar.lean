/-!
The numbers that scores are made of. Running scores are floating-point numbers; what holds of scores
is said of any numbers with these operations.
-/

namespace Soql

class Scalar (κ : Type) extends Add κ, Mul κ, Div κ where
  ofNat : Nat → κ
  sqrt : κ → κ
  less : κ → κ → Bool
  same : κ → κ → Bool

namespace Scalar

variable {κ : Type} [Scalar κ]

def nought : κ :=
  ofNat 0

/-- A share of a whole; the share of nothing is nought. -/
def share (part whole : Nat) : κ :=
  if whole == 0 then nought else ofNat part / ofNat whole

def smaller (a b : κ) : κ :=
  if less b a then b else a

def larger (a b : κ) : κ :=
  if less a b then b else a

def total (xs : List κ) : κ :=
  xs.foldl (· + ·) nought

end Scalar

instance : Scalar Float where
  ofNat := Float.ofNat
  sqrt := Float.sqrt
  less a b := a < b
  same a b := a == b

end Soql
