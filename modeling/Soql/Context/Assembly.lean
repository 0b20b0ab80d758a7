import Soql.Context.Pruning
import Soql.Context.Request
import Soql.Grounding.Tiers
import Soql.Query.Reference
import Soql.Scoring.Rank

namespace Soql

open Text

structure Assembler where
  grounder : Grounder := {}
  weights : Weights Float := ⟨0.2, 0.5, 0.3, 0.15⟩
  /-- meanings can be compared -/
  comparesMeanings : Bool := false
  maxNeighbors : Int := 30
  /-- the number of neighbours above which only the most fitting ones count -/
  hubThreshold : Int := 50
  hubMaxNeighbors : Int := 10
  minRelevance : Float := 0.15
  maxFields : Int := 25
  deriving Inhabited

def inSingular (word : String) : String :=
  if endsIn word "ies" && word.length > 4 then firstChars (word.length - 3) word ++ "y"
  else if endsIn word "s" && !endsIn word "ss" && word.length > 3 then
    firstChars (word.length - 1) word
  else word

/-- The names and labels of a catalog in lower case, each with the first object that bears it. -/
def nameIndex (summaries : List Summary) : List (String × String) :=
  summaries.flatMap fun s =>
    (lower s.name, s.name) :: if s.label.isEmpty then [] else [(lower s.label, s.name)]

def objectNamed (index : List (String × String)) (phrase : String) : Option String :=
  let one := inSingular phrase
  ([index.lookup phrase, index.lookup one, Vocabulary.objectOf? phrase, Vocabulary.objectOf? one].filterMap
    id).find? (!·.isEmpty)

/-- The phrases at the start of some words by which an object is sought: three words, two, and then
one, if it says something. -/
def phrasesAt (words : List String) : List String :=
  let long := [3, 2].filterMap fun n =>
    if words.length < n then none else some (joined " " (words.take n))
  long ++ match words with
    | [] => []
    | w :: _ =>
      if (w.length : Int) < shortestTerm || Vocabulary.stopwords.contains w then [] else [w]

def phrases : List String → List String
  | [] => []
  | w :: rest => phrasesAt (w :: rest) ++ phrases rest

def namedObjects (request : String) (summaries : List Summary) : List String :=
  let index := nameIndex summaries
  let plain := ((words (lower request)).map Request.plainWord).filter (!·.isEmpty)
  let named := (phrases plain).filterMap (objectNamed index)
  let entities := (Request.terms request).entities.filterMap fun e => index.lookup (lower e)
  let found := named ++ entities ++ Vocabulary.junctionsIn request
  let known := summaries.map (·.name)
  (found.filter fun n => !n.isEmpty && known.contains n).eraseDups

namespace Assembler

variable (a : Assembler)

/-- The neighbours of an object that may fit a request, by name; of an object with many only those
whose names fit best. -/
def neighborsOf (labels : List (String × String)) (seeds terms : List String) (seed : SObject) :
    List String :=
  let around := sortedTexts (seed.neighbors.filter fun n =>
    !seeds.contains n && (Table.find? n labels).isSome)
  if (around.length : Int) > a.hubThreshold then
    let fit (n : String) : Float :=
      wordFit { name := n, label := (Table.find? n labels).getD n } terms
    firstOf a.hubMaxNeighbors (around.mergeSort fun x y => !(fit x < fit y))
  else around

def pruned (request : String) (o : SObject) : SObject :=
  { o with fields := importantFields o.fields request a.maxFields }

def rankFor (request : String) (tenant : Tenant) (objects : List SObject)
    (selected : List String) : Dialogue (Ranking Float) :=
  let unique := firstOfEachName [] objects
  let names := unique.map (·.name)
  let finish (semantic : Option (List (String × Float))) : Ranking Float :=
    rank a.weights (requestTerms request shortestTerm) selected semantic unique
  if unique.isEmpty then .done ⟨[], a.comparesMeanings⟩
  else if !a.comparesMeanings then .done (finish none)
  else .ask (.vectors tenant names request) fun answer =>
    .done (finish (match answer with
      | .ok (stored, vector) => meanings names stored vector
      | .error _ => none))

def build (request : String) (tenant : Tenant) : Dialogue Context := do
  let summaries ← Dialogue.catalog tenant
  let labels := Table.putAll (summaries.map fun s => (s.name, s.label)) []
  let seeds ← Dialogue.details tenant (namedObjects request summaries)
  let scope := seeds.map (·.name)
  let terms := requestTerms request shortestTerm
  let around := (seeds.flatMap (a.neighborsOf labels scope terms)).eraseDups
  let neighbors ← Dialogue.details tenant around
  let ranking ← a.rankFor request tenant neighbors scope
  let chosen := firstOf a.maxNeighbors
    ((ranking.candidates.filter fun c => !(c.score < a.minRelevance)).map (·.name))
  let described := Catalog.ofObjects neighbors
  let selected := seeds ++ chosen.filterMap (Table.find? · described)
  let grounding ← a.grounder.ground tenant selected scope (Request.terms request).values
  let objects := selected.map (a.pruned request)
  return {
    objects, grounding, scope, tenant
    catalog := Catalog.ofObjects (seeds ++ neighbors)
    known := summaries.map (·.name)
    intents := Request.intents request
    stats := .of objects
    degraded := a.comparesMeanings && !neighbors.isEmpty && !ranking.hasMeanings }

def serves (context : Context) (request : String) : Bool :=
  context.grounding.map (·.candidate) == (Request.terms request).values &&
    context.intents == Request.intents request

/-- Adapts a context kept for another request: the objects stay, and the values and intents are those
of this request. -/
def adapt (context : Context) (request : String) (tenant : Tenant) : Dialogue Context := do
  let full := context.objects.map fun o => (context.catalog.get? o.name).getD o
  let grounding ← a.grounder.ground tenant full context.scope (Request.terms request).values
  let objects := full.map (a.pruned request)
  return { context with
    objects, grounding
    intents := Request.intents request
    stats := .of objects }

inductive Assembled where
  /-- a context that was kept, as it is -/
  | kept (context : Context)
  /-- a context to keep -/
  | made (context : Context)
  deriving Inhabited

def Assembled.context : Assembled → Context
  | kept c => c
  | made c => c

def assemble (held : Option Context) (request : String) (tenant : Tenant) : Dialogue Assembled :=
  match held with
  | some context =>
    if serves context request then .done (.kept context)
    else (a.adapt context request tenant).bind fun c => .done (.made c)
  | none => (a.build request tenant).bind fun c => .done (.made c)

end Assembler

/-- The objects to which the links of a name lead from some objects, and of those the described ones. -/
def stepTargets (catalog : Catalog) (current : List SObject) (part : String) :
    List String × List SObject :=
  let targets := current.flatMap fun o => (o.parentsBy part).map (·.target)
  (targets, targets.filterMap catalog.get?)

def pathTargets (catalog : Catalog) : List SObject → List String → List String
  | _, [] => []
  | [], _ => []
  | current, part :: rest =>
    let (targets, next) := stepTargets catalog current part
    targets ++ pathTargets catalog next rest

def neededObjects (q : Query) (catalog : Catalog) : List String :=
  let direct := q.object :: q.semiJoins.map (·.query.object)
  let related := match catalog.get? q.object with
    | none => []
    | some main =>
      (q.children.filterMap fun c => (main.child? c.object).map (·.object)) ++
      (q.typeOfs.flatMap fun (relationship, _) => (main.parentsBy relationship).map (·.target)) ++
      q.references.flatMap fun r => pathTargets catalog [main] (segments r.path).dropLast
  (direct ++ related).eraseDups

/-- The objects that a query refers to and that are known but not described yet. -/
def missingObjects (q : Query) (context : Context) (catalog : Catalog) : List String :=
  (neededObjects q catalog).filter fun n => (catalog.get? n).isNone && context.isKnown n

/-- A catalog with the missing objects that a query refers to. What they refer to in turn is fetched
in further rounds. -/
def completed (q : Query) (context : Context) (tenant : Tenant) :
    (rounds : Nat) → Catalog → Dialogue Catalog
  | 0, catalog => .done catalog
  | rounds + 1, catalog =>
    match missingObjects q context catalog with
    | [] => .done catalog
    | wanted => do
      let fetched ← Dialogue.details tenant wanted
      if fetched.isEmpty then return catalog
      completed q context tenant rounds (Table.putAll (fetched.map fun o => (o.name, o)) catalog)

def fetchRounds : Nat :=
  3

/-- A context with the objects that a query refers to; nothing when it needs no more. -/
def completeFor (q : Query) (context : Context) (tenant : Tenant) : Dialogue (Option Context) := do
  let catalog ← completed q context tenant fetchRounds context.catalog
  return if catalog.length == context.catalog.length then none else some { context with catalog }

end Soql
