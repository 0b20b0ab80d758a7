import Soql.Schema.Basic
import Soql.Scoring.Scalar
import Soql.Text.Cut
import Soql.Text.Word
import Soql.Vocabulary

namespace Soql

open Text

def shortestTerm : Int :=
  3

/-- The terms of a request: its words in lower case without punctuation, each once, without those that
are short or say nothing. -/
def requestTerms (request : String) (minLength : Int) : List String :=
  let terms := (runsBetween isBlank (lowerChars request.toList)).map fun w =>
    String.ofList (w.filter isWord)
  (terms.filter fun t => (t.length : Int) ≥ minLength && !Vocabulary.stopwords.contains t).eraseDups

def totalPoints (points : List Nat) : Nat :=
  points.foldl (· + ·) 0

def termRelevance (name label description : List Char) (term : List Char) : Nat :=
  if term == name || term == label then 10
  else if occurs term name || occurs term label then 5
  else if !description.isEmpty && occurs term description then 2
  else 0

/-- The relevance of a field to some terms; a reference has a little of its own. -/
def Field.relevance (f : Field) (terms : List String) (minLength : Int) : Nat :=
  let name := lowerChars f.name.toList
  let label := lowerChars f.label.toList
  let description := lowerChars f.description.toList
  let long := terms.filter fun t => (t.length : Int) ≥ minLength
  totalPoints (long.map fun t => termRelevance name label description t.toList) +
    if f.isReference then 1 else 0

def withoutS (term : String) : String :=
  if endsIn term "s" then .ofList term.toList.dropLast else term

def termFit (names synonyms fieldWords : List String) (description term : String) : Nat :=
  let single := withoutS term
  let either (words : List String) : Bool := words.contains term || words.contains single
  if either names || either synonyms then 10
  else if names.any fun n => isPartOf term n || isPartOf single n then 5
  else if !description.isEmpty && isPartOf term description then 2
  else if either fieldWords then 1
  else 0

/-- How well some terms fit an object: its name and label, other words for it, its description, and
the names and labels of its fields. One term that fits a name is enough. -/
def wordFit {κ : Type} [Scalar κ] (o : SObject) (terms : List String) : κ :=
  let names := [lower o.name, lower o.label]
  let synonyms := (Vocabulary.synonymsOf o.name).map lower
  let fieldWords := o.fields.flatMap fun f => [lower f.label, lower f.name]
  let fit := totalPoints (terms.map (termFit names synonyms fieldWords (lower o.description)))
  Scalar.smaller (Scalar.ofNat 1) (Scalar.ofNat fit / Scalar.ofNat 10)

def overlap (a b : List String) : Nat × Nat :=
  let a := a.eraseDups
  let b := b.eraseDups
  let shared := (a.filter b.contains).length
  (shared, a.length + b.length - shared)

def jaccard {κ : Type} [Scalar κ] (a b : List String) : κ :=
  let (shared, whole) := overlap a b
  Scalar.share shared whole

end Soql
