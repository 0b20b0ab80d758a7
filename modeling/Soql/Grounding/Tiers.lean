import Soql.Dialogue
import Soql.Grounding.Basic
import Soql.Grounding.Recognition
import Soql.Grounding.SearchTerm

/-!
Finding out what a value is. First comes what is known without asking: forms, everyday words, listed
values and labels. Only when none of it is certain are the records searched, and then the best of
what was known is what is left if the search finds nothing.
-/

namespace Soql

open Text

structure Grounder where
  /-- the likeness from which on two texts may be the same -/
  fuzzyThreshold : Float := 0.8
  /-- the confidence above which records are not searched -/
  confident : Float := 0.85
  searchTime : Float := 5.0
  resultLimit : Int := 5
  searches : Bool := true
  deriving Inhabited

namespace Grounder

def ofRecognition (candidate : String) (r : Recognition) : Grounding :=
  let (field, filter) := r.fieldAndFilter
  { candidate
    value := some r.normalized
    kind := some .pattern
    source := some .metadata
    confidence := r.confidence
    evidence := ["pattern:" ++ r.form.text]
    field := some field
    filter := some filter }

def objectGrounding (candidate object evidence : String) (kind : GroundingKind) : Grounding where
  candidate
  value := some object
  kind := some kind
  source := some .metadata
  confidence := 0.9
  evidence := [evidence]
  object := some object
  filter := some ("FROM " ++ object)

def equalityFilter (field value : String) : String :=
  field ++ " = '" ++ value ++ "'"

def keywordGrounding (candidate low field value : String) (confidence : Float) : Grounding where
  candidate
  value := some value
  kind := some .synonym
  source := some .metadata
  confidence
  evidence := ["keyword:" ++ low]
  field := some field
  filter := some (equalityFilter field value)

def objectOfWord (low : String) : Option String :=
  (Vocabulary.objectOf? low).orElse fun _ =>
    Vocabulary.objectOf? (.ofList (dropEnd (· == 's') low.toList))

def byWord (term : String) : List Grounding :=
  let low := lower term
  let objects := match objectOfWord low with
    | some object => [objectGrounding term object ("synonym:" ++ low ++ "->" ++ object) .synonym]
    | none => []
  let priorities := (Vocabulary.priorityWords.lookup low).toList.map
    (keywordGrounding term low "Priority" · 0.9)
  let states := (Vocabulary.statusWords.lookup low).toList.map
    (keywordGrounding term low "Status" · 0.85)
  objects ++ priorities ++ states

/-- What one listed value says of a term: it is the same, or nearly. -/
def byValue (threshold : Float) (term : String) (o : SObject) (f : Field) (value : String) :
    Option Grounding :=
  let trust := Vocabulary.trustIn o.category
  let grounding (kind : GroundingKind) (confidence : Float) : Grounding := {
    candidate := term
    value := some value
    kind := some kind
    source := some .metadata
    confidence
    evidence := ["picklist:" ++ o.name ++ "." ++ f.name ++ "." ++ value]
    object := some o.name
    field := some f.name
    filter := some (equalityFilter f.name value) }
  if sameLower value term then some (grounding .exact (0.95 * trust))
  else
    let likeness := similarity term value
    if likeness < threshold then none else some (grounding .fuzzy (0.8 * likeness * trust))

def byValues (threshold : Float) (term : String) (objects : List SObject) : List Grounding :=
  objects.flatMap fun o => o.fields.flatMap fun f => f.values.filterMap (byValue threshold term o f)

def byLabel (term : String) (o : SObject) : List Grounding :=
  let low := lower term
  let objects :=
    if lower o.name == low || lower o.label == low then
      [objectGrounding term o.name ("object:" ++ o.name) .exact]
    else []
  let fields := (o.fields.filter fun f => lower f.label == low).map fun f => ({
    candidate := term
    value := some f.name
    kind := some .exact
    source := some .metadata
    confidence := 0.8
    evidence := ["field label:" ++ o.name ++ "." ++ f.name]
    object := some o.name
    field := some f.name } : Grounding)
  objects ++ fields

def known (g : Grounder) (term : String) (objects : List SObject) :
    Except Failure (List Grounding) := do
  let form := ((← Recognition.of term).map (ofRecognition term)).toList
  let found := form ++ byWord term ++ byValues g.fuzzyThreshold term objects ++
    objects.flatMap (byLabel term)
  return found.mergeSort fun a b => !(a.confidence < b.confidence)

/-- What is done about a value: nothing more, or a search whose outcome may still leave what is known
already. -/
inductive Decision where
  | settled (grounding : Grounding)
  | search (term sanitized text : String) (scope : List String) (fallback : Grounding)
  deriving Inhabited

def decideOn (g : Grounder) (objects : List SObject) (scope : List String)
    (candidate : String) : Except Failure Decision := do
  let term := trimmed candidate
  if term.isEmpty then return .settled { candidate }
  let best := (← g.known term objects).head?
  let fallback := best.getD { candidate, evidence := ["tier1:no match", "tier2:no match"] }
  -- Only what is certain makes the search needless.
  if best.any fun b => b.confidence > g.confident then return .settled fallback
  let sanitized := SearchTerm.sanitize term
  if !g.searches || !SearchTerm.isValid sanitized then return .settled fallback
  return .search term sanitized (SearchTerm.searchText sanitized scope g.resultLimit) scope fallback

/-- The place of an object among those searched; the last mention counts. -/
def place (scope : List String) (object : String) : Nat :=
  match scope.reverse.findIdx? (· == object) with
  | some fromEnd => scope.length - 1 - fromEnd
  | none => scope.eraseDups.length

/-- One record is a better match than another: fewer edits, or an earlier place. -/
def ranksBefore (a b : Nat × Nat) : Bool :=
  a.1 < b.1 || (a.1 == b.1 && a.2 < b.2)

def firstBest {α : Type} (key : α → Nat × Nat) : List α → Option α
  | [] => none
  | a :: rest =>
    match firstBest key rest with
    | none => some a
    | some b => some (if ranksBefore (key b) (key a) then b else a)

def closestRecord (g : Grounder) (sanitized : String) (scope : List String) (records : List Record) :
    Option Record :=
  let like := records.filter fun r => g.fuzzyThreshold ≤ (SearchTerm.likenessToName sanitized r.name).1
  firstBest (fun r => ((SearchTerm.likenessToName sanitized r.name).2, place scope r.object)) like

def ofRecord (g : Grounder) (term sanitized text : String) (r : Record) : Grounding where
  candidate := term
  value := some r.name
  kind := some .verified
  source := some .records
  confidence := g.confident
  evidence := ["search:" ++ text, "object:" ++ r.object,
    "record:" ++ r.object ++ "/" ++ r.id ++ " " ++ r.name]
  object := some r.object
  field := some "Name"
  filter := some ("Name LIKE '" ++ sanitized ++ "%'")

/-- What a search says of a value; one that failed or was not answered says as much as one that found
nothing. -/
def conclude (g : Grounder) : Decision → Option (Reply (List Record)) → Grounding
  | .settled grounding, _ => grounding
  | .search term sanitized text scope fallback, some (.answered records) =>
    match g.closestRecord sanitized scope records with
    | some r => g.ofRecord term sanitized text r
    | none => fallback
  | .search _ _ _ _ fallback, _ => fallback

def Decision.text? : Decision → Option String
  | .settled _ => none
  | .search _ _ text _ _ => some text

def concludeAll (g : Grounder) : List Decision → List (Reply (List Record)) → List Grounding
  | [], _ => []
  | d :: rest, replies =>
    match d.text?, replies with
    | some _, reply :: replies => g.conclude d (some reply) :: concludeAll g rest replies
    | _, replies => g.conclude d none :: concludeAll g rest replies

/-- The objects to search: those in scope, or else those given, or else the usual ones. -/
def searchScope (objects : List SObject) (scope : List String) : List String :=
  if !scope.isEmpty then scope
  else if !objects.isEmpty then objects.map (·.name)
  else Vocabulary.searchTargets

/-- Grounds values together. When one of them fails, the searches for the others are made all the
same, but their replies are not awaited. -/
def ground (g : Grounder) (tenant : Tenant) (objects : List SObject) (scope : List String)
    (candidates : List String) : Dialogue (List Grounding) :=
  let decisions := candidates.map (g.decideOn objects (searchScope objects scope))
  let texts := decisions.filterMap fun d => d.toOption.bind Decision.text?
  let finish (replies : List (Reply (List Record))) : Dialogue (List Grounding) :=
    match decisions.mapM id with
    | .ok decided => .done (g.concludeAll decided replies)
    | .error f => .failed f
  if texts.isEmpty then finish []
  else .ask (.searches tenant g.searchTime texts (decisions.all (·.isOk))) finish

end Grounder

end Soql
