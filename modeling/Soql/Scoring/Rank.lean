import Soql.Scoring.Terms

namespace Soql

variable {κ : Type} [Scalar κ]

/-- How an object lies to the selected ones: the share of neighbours in common, and whether it points
to two of them. -/
def structureScore (o : SObject) (selected : List String) : κ × Bool :=
  if selected.isEmpty then (Scalar.nought, false)
  else
    let linked := (o.parents.map (·.target)).eraseDups.filter selected.contains
    (jaccard o.neighbors selected, linked.length ≥ 2)

/-- The cosine of the angle between two vectors, nought when it is negative or when there is none. -/
def cosine (a b : List κ) : κ :=
  if a.isEmpty || b.isEmpty || a.length != b.length then Scalar.nought
  else
    let dot := Scalar.total (List.zipWith (· * ·) a b)
    let size (v : List κ) : κ := Scalar.sqrt (Scalar.total (v.map fun x => x * x))
    let norm := size a * size b
    if Scalar.same norm Scalar.nought then Scalar.nought
    else Scalar.larger Scalar.nought (dot / norm)

structure Weights (κ : Type) where
  lexical : κ
  semantic : κ
  structural : κ
  /-- what an object gains that joins two selected ones -/
  junction : κ
  deriving Inhabited

/-- The weights without likeness of meanings: the two others keep their proportion and make up the
whole. -/
def Weights.withoutMeaning (w : Weights κ) : Weights κ :=
  let rest := w.lexical + w.structural
  if Scalar.same rest Scalar.nought then
    ⟨Scalar.nought, Scalar.nought, Scalar.nought, w.junction⟩
  else ⟨w.lexical / rest, Scalar.nought, w.structural / rest, w.junction⟩

structure Candidate (κ : Type) where
  name : String
  score : κ
  lexical : κ
  semantic : Option κ
  structural : κ
  isJunction : Bool
  deriving Inhabited

/-- One candidate goes before another: it scores higher, or as high under an earlier name. -/
def Candidate.goesBefore (a b : Candidate κ) : Bool :=
  if Scalar.same a.score b.score then decide (a.name < b.name) else Scalar.less b.score a.score

/-- The likeness of meaning of each named object that has a vector. Without any vector there is no
such signal. -/
def meanings (names : List String) (stored : List (String × List κ)) (request : List κ) :
    Option (List (String × κ)) :=
  if stored.isEmpty || request.isEmpty then none
  else
    some (names.filterMap fun name =>
      (Table.find? name stored).map fun v => (name, cosine request v))

/-- An object with its scores; without a vector of its own it is taken to mean something else. -/
def scored (w : Weights κ) (terms selected : List String) (semantic : Option (List (String × κ)))
    (o : SObject) : Candidate κ :=
  let weights := if semantic.isSome then w else w.withoutMeaning
  let lexical := wordFit o terms
  let (structural, isJunction) := structureScore o selected
  let meaning := semantic.map fun m => (Table.find? o.name m).getD Scalar.nought
  let sum := weights.lexical * lexical + weights.structural * structural +
    weights.semantic * meaning.getD Scalar.nought
  ⟨o.name, if isJunction then sum + w.junction else sum, lexical, meaning, structural, isJunction⟩

def firstOfEachName : (seen : List String) → List SObject → List SObject
  | _, [] => []
  | seen, o :: rest =>
    if seen.contains o.name then firstOfEachName seen rest
    else o :: firstOfEachName (o.name :: seen) rest

structure Ranking (κ : Type) where
  candidates : List (Candidate κ)
  hasMeanings : Bool
  deriving Inhabited

def rank (w : Weights κ) (terms selected : List String) (semantic : Option (List (String × κ)))
    (objects : List SObject) : Ranking κ where
  candidates := (objects.map (scored w terms selected semantic)).mergeSort fun a b =>
    !b.goesBefore a
  hasMeanings := semantic.isSome

end Soql
