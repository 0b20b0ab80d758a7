import Soql.Scoring.Terms

namespace Soql

/-- The first items of a list; a negative number leaves as many out at the end. -/
def firstOf {α : Type} (n : Int) (items : List α) : List α :=
  if n < 0 then items.take (items.length - (-n).toNat) else items.take n.toNat

/-- The fields that are always shown: the core fields, and the owner. -/
def isAlwaysShown (f : Field) : Bool :=
  f.name == "OwnerId" || Vocabulary.coreFields.contains f.name

/-- One field goes before another: it is more relevant, or as relevant under an earlier name. -/
def fieldGoesBefore (terms : List String) (a b : Field) : Bool :=
  let relevanceA := a.relevance terms shortestTerm
  let relevanceB := b.relevance terms shortestTerm
  relevanceA > relevanceB || (relevanceA == relevanceB && decide (a.name < b.name))

/-- The fields to show for a request: those always shown, then the most relevant others as far as
there is room. -/
def importantFields (fields : List Field) (request : String) (maxFields : Int) : List Field :=
  let always := fields.filter isAlwaysShown
  let terms := if request.isEmpty then [] else requestTerms request shortestTerm
  let others := (fields.filter (!isAlwaysShown ·)).mergeSort fun a b => !fieldGoesBefore terms b a
  always ++ others.take (maxFields - always.length).toNat

end Soql
