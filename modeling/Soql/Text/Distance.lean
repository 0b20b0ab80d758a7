import Soql.Decimal.Binary
import Soql.Text.Casing

namespace Soql.Text

/-- The rest of a row of distances: `left` is the distance just written, `diagonal` the one above it,
and each step adds the distance for one more character of the second text. -/
def fillRow (a : Char) : (left diagonal : Nat) → List Char → List Nat → List Nat
  | left, diagonal, b :: bs, above :: row =>
    let here := min (min (above + 1) (left + 1)) (diagonal + if a = b then 0 else 1)
    here :: fillRow a here above bs row
  | _, _, _, _ => []

def nextRow (bs : List Char) (row : List Nat) (a : Char) : List Nat :=
  match row with
  | [] => []
  | first :: others => (first + 1) :: fillRow a (first + 1) first bs others

def distance (a b : List Char) : Nat :=
  (a.foldl (nextRow b) (List.range (b.length + 1))).getLastD 0

def editDistance (a b : String) : Nat :=
  distance a.toList b.toList

/-- The share of a text's characters that need no edit, ignoring case: one for equal texts, nought
when a text is empty. -/
def similarity (a b : String) : Float :=
  if a.isEmpty || b.isEmpty then 0.0
  else
    let a := lowerChars a.toList
    let b := lowerChars b.toList
    1.0 - Decimal.quotient (distance a b) (max a.length b.length)

end Soql.Text
