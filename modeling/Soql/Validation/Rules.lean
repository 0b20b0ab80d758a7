import Soql.Text.RecordId
import Soql.Validation.Message
import Soql.Validation.PathWalk

namespace Soql

open Text

structure Validator where
  usualLimit : Int := 1000
  maxRows : Int := 50000
  deriving DecidableEq, Repr, Inhabited

namespace Validator

def firstReferences : (seen : List String) → List Reference → List Reference
  | _, [] => []
  | seen, r :: rest =>
    let key := lower r.path
    if seen.contains key then firstReferences seen rest
    else r :: firstReferences (key :: seen) rest

def isDotted (path : String) : Bool :=
  path.toList.contains '.'

def isMisnamed {κ : Type} : SelectItem κ → Bool
  | .field _ a => a.isSome
  | .call _ _ a => a.any (·.withAs)
  | .child _ => false
  | .typeOf _ _ _ => false

def aliasRule (q : Query) : List Message :=
  if q.items.any isMisnamed then
    [.error "syntax"
      "SOQL does not use \"AS\" for aliases; write \"COUNT(Id) total\" and do not alias plain fields"
      (some .stripAs)]
  else []

def bindRule (q : Query) : List Message :=
  (q.comparisons.filter (·.isBind)).map fun c =>
    .error "syntax" ("Bind variable " ++ c.value ++ " in filter on " ++ c.field ++
      "; inline the literal value") none

def havingRule (q : Query) : List Message :=
  if q.having.any (!·.isEmpty) && q.groupBy.isEmpty then
    [.error "syntax" "HAVING requires a GROUP BY clause" none]
  else []

def isIdField (last : String) : Bool :=
  endsIn last "id" && !(["recordid", "recordtypeid"].contains last)

/-- A record id compared by a pattern that only fits names. -/
def likeIdError (c : Comparison) : Option Message :=
  let last := lower (lastSegment c.field)
  let values := c.literals
  if c.operator != .like || !isIdField last then none
  else if !values.isEmpty && values.all fun v => hasIdForm (dropEnds (· == '%') v.toList) then none
  else
    let message := "ID fields like " ++ c.field ++ " hold record ids, not names"
    match Vocabulary.idRelationships.lookup last with
    | some relationship =>
      let path := joined "." ((segments c.field).dropLast ++ [relationship, "Name"])
      some (.error "syntax" (message ++ "; filter on " ++ path ++ " instead")
        (some (.swapField c.field path [.filter])))
    | none => some (.error "syntax" message none)

/-- Record ids compared by patterns that only fit names. -/
def likeIdRule (q : Query) : List Message :=
  q.comparisons.filterMap likeIdError

def syntaxRules (q : Query) : List Message :=
  aliasRule q ++ bindRule q ++ havingRule q ++ likeIdRule q

/-- The names that a query's object may have been meant by: the known ones and then those of the
catalog. -/
def knownNames (context : Context) : List String :=
  context.known ++ context.catalog.names.filter fun n => !context.known.contains n

/-- The object that a query is about, and what is wrong with its name. An object that is known but not
described is right, and nothing more is checked against it. -/
def mainObjectOf (q : Query) (context : Context) : Option SObject × List Message :=
  match context.get? q.object with
  | some o => (some o, [])
  | none =>
    let known := knownNames context
    let message := "Object \"" ++ q.object ++ "\" not found in the metadata graph"
    if known.any (sameLower · q.object) then (none, [])
    else match Nearest.closestName q.object known with
      | some suggestion =>
        (context.get? suggestion,
          [.error "objects" (message ++ ". Did you mean \"" ++ suggestion ++ "\"?")
            (some (.swapObject q.object suggestion))])
      | none => (none, [.error "objects" message none])

def toolingRule (q : Query) (mainName : String) : List Message :=
  if Vocabulary.toolingObjects.contains mainName then
    let problems :=
      (if q.aggregateNames.any fun n => lower n == "count" then ["COUNT()"] else []) ++
      (if q.groupBy.isEmpty then [] else ["GROUP BY"]) ++
      (if q.limit.isSome then ["LIMIT"] else []) ++
      (if q.offset.isSome then ["OFFSET"] else []) ++
      (if q.uses .any then ["OR"] else []) ++
      (if q.comparisons.any fun c => c.operator == .unequal || c.operator == .angled then ["!="]
        else [])
    problems.map fun p =>
      .error "tooling" (mainName ++ " is a Tooling API object and does not support " ++ p) none
  else []

def callAliases (q : Query) : List String :=
  q.items.filterMap fun
    | .call _ _ (some a) => some (lower a.name)
    | _ => none

def throughJunction (main : SObject) (path : String) : Option String :=
  if isDotted path then PathWalk.junctionOf ((segments path).headD "") main else none

def pathError (path message : String) (corrected : Option String) : Message :=
  if isDotted path then .error "relationships" message (corrected.map (.fixPath path ·))
  else .error "fields" message (corrected.map (.swapField path · Clause.every))

def pathRule (q : Query) (main : SObject) (context : Context) : List Message :=
  let aliases := callAliases q
  let checked := firstReferences [] (q.references.filter fun r => !aliases.contains (lower r.path))
  checked.filterMap fun r =>
    if (throughJunction main r.path).any (!·.isEmpty) then none
    else match PathWalk.walk context main r.path with
      | .reached _ => none
      | .lost message corrected => some (pathError r.path message corrected)

def branchErrors (context : Context) (relationship : String) (targets : List (String × String))
    (branch : TypeBranch) : List Message :=
  match Table.find? (lower branch.object) targets with
  | none =>
    [.error "relationships" ("Unknown object type \"" ++ branch.object ++ "\" in TYPEOF " ++
      relationship ++ "; expected one of " ++ joined ", " (sortedTexts (targets.map (·.2)))) none]
  | some target =>
    match context.get? target with
    | none => []
    | some o =>
      (branch.fields.filter fun f => (o.field? f).isNone).map fun f =>
        .error "fields" ("Field \"" ++ f ++ "\" not found on " ++ o.name ++ " in TYPEOF clause") none

def typeOfRule (q : Query) (main : SObject) (context : Context) : List Message :=
  q.typeOfs.flatMap fun (relationship, branches) =>
    match main.parentsBy relationship with
    | [] =>
      [.error "relationships" ("TYPEOF relationship \"" ++ relationship ++ "\" not found on " ++
        main.name) none]
    | links =>
      let targets := Table.putAll (links.map fun l => (lower l.target, l.target)) []
      branches.flatMap (branchErrors context relationship targets)

def childPathErrors (context : Context) (child : SObject) (inner : InnerQuery) :
    List Message :=
  (firstReferences [] inner.references).filterMap fun r =>
    match PathWalk.walk context child r.path with
    | .reached _ => none
    | .lost message corrected =>
      some (.error "subqueries" (message ++ " in " ++ inner.object ++ " sub-query")
        (corrected.map (.fixChildField inner.object r.path ·)))

def childErrors (context : Context) (link : Option ChildLink) (inner : InnerQuery) : List Message :=
  match link.bind fun l => context.get? l.object with
  | some child => childPathErrors context child inner
  | none => []

def childRule (q : Query) (main : SObject) (context : Context) : List Message :=
  q.children.flatMap fun inner =>
    let written := inner.object
    let message := "Child relationship \"" ++ written ++ "\" not found on " ++ main.name
    match main.child? written with
    | some link => childErrors context (some link) inner
    | none =>
      match Nearest.closestName written (main.children.map (·.relationship)) with
      | some suggestion =>
        .error "subqueries" (message ++ ". Did you mean \"" ++ suggestion ++ "\"?")
            (some (.swapChild written suggestion)) ::
          childErrors context (main.child? suggestion) inner
      | none => [.error "subqueries" message none]

/-- The error at a path through a joining or child object, which only a semi-join reaches. -/
def junctionError (q : Query) (main : SObject) (context : Context) (r : Reference)
    (junction : String) : Message :=
  let compared := q.comparisons.map fun c => lower c.field
  let link := PathWalk.fieldToMain junction main context
  let given := link.filter (!·.isEmpty)
  let rest := afterFirstPoint r.path
  let action :=
    if r.clause == .filter && compared.contains (lower r.path) then
      given.map fun l => Action.toSemiJoin r.path junction l "Id"
    else none
  .error "junctions" (junction ++ " is a junction or child object of " ++ main.name ++
    " and cannot be reached with dot notation (" ++ r.path ++ "); use Id IN (SELECT " ++
    given.getD "<lookup>" ++ " FROM " ++ junction ++ " WHERE " ++ rest ++ " = ...)") action

def junctionRule (q : Query) (main : SObject) (context : Context) : List Message :=
  let through := firstReferences []
    (q.references.filter fun r => (throughJunction main r.path).isSome)
  through.filterMap fun r => (throughJunction main r.path).map (junctionError q main context r)

def ungrouped (display group : String) : Message :=
  .error "aggregates" ("Field '" ++ display ++
    "' is selected but not present in the GROUP BY clause. When using aggregate functions, " ++
    "all non-aggregated fields must be included in the GROUP BY clause.")
    (some (.addGroupBy [group]))

/-- The expression by which a call is to be grouped: its argument when the call only changes how a
value is shown, and the call itself otherwise. -/
def groupOfCall (name : String) (args : List String) : String :=
  match (signature (callText name args)).toList.contains '(', args with
  | false, first :: _ => first
  | _, _ => callText name args

def groupingError {κ : Type} (grouped : List String) : SelectItem κ → Option Message
  | .field path _ => if grouped.contains (signature path) then none else some (ungrouped path path)
  | .call name args _ =>
    if isAggregateName name || grouped.contains (signature (callText name args)) then none
    else some (ungrouped (callText name args) (groupOfCall name args))
  | .child _ => none
  | .typeOf _ _ _ => none

def aggregateRule (q : Query) : List Message :=
  if q.hasAggregates then
    (if q.typeOfs.isEmpty then []
      else [.error "aggregates" "TYPEOF clauses cannot be used with aggregate functions" none]) ++
      q.items.filterMap (groupingError (q.groupBy.map signature))
  else []

def selectsOneField (inner : InnerQuery) : Bool :=
  match inner.items with
  | [.field _ _] => true
  | _ => false

def joinPathErrors (context : Context) (o : SObject) (inner : InnerQuery) : List Message :=
  (firstReferences [] inner.references).filterMap fun r =>
    match PathWalk.walk context o r.path with
    | .reached _ => none
    | .lost message _ => some (.error "semi_joins" (message ++ " in semi-join sub-query") none)

def semiJoinRule (q : Query) (context : Context) : List Message :=
  q.semiJoins.flatMap fun join =>
    let inner := join.query
    match context.get? inner.object with
    | some o =>
      (if selectsOneField inner then []
        else [.error "semi_joins" ("Semi-join sub-query on " ++ o.name ++
          " must select exactly one Id or lookup field") none]) ++ joinPathErrors context o inner
    | none =>
      let known := context.known ++ context.catalog.names
      if known.any (sameLower · inner.object) then []
      else
        let hint := match Nearest.closestName inner.object known with
          | some suggestion => ". Did you mean \"" ++ suggestion ++ "\"?"
          | none => ""
        [.error "semi_joins" ("Object \"" ++ inner.object ++ "\" in semi-join sub-query not found" ++
          hint) none]

def allowedValues (owner : Option SObject) (path : String) (context : Context) :
    List String :=
  match owner.bind fun o => (PathWalk.walk context o path).field? with
  | some f => if f.isPicklist then f.values.map lower else []
  | none => []

/-- The comparisons of a query and of its semi-joins, with the object that their fields belong to. -/
def scopedComparisons (q : Query) (main : Option SObject) (context : Context) :
    List (Option SObject × Comparison) :=
  q.comparisons.map (main, ·) ++ q.semiJoins.flatMap fun join =>
    join.query.comparisons.map (context.get? join.query.object, ·)

def literalRule (q : Query) (main : Option SObject) (context : Context) : List Message :=
  let grounded := context.foundValues
  (scopedComparisons q main context).flatMap fun (owner, c) =>
    let allowed := allowedValues owner c.field context
    (c.literals.filter fun literal =>
      resemblesId literal && !grounded.contains (lower literal) &&
        !allowed.contains (lower literal)).map fun literal =>
      .error "literals" ("Found ID literal \"" ++ literal ++ "\" in filter on " ++ c.field ++
        ". Record ids must not be guessed; filter on a Name field (e.g. Owner.Name LIKE '...') " ++
        "or use a semi-join") none

def isPicklistOperator : Operator → Bool
  | .equal | .unequal | .angled | .isIn | .notIn | .includes | .excludes => true
  | .less | .atMost | .greater | .atLeast | .like => false

def valueError (c : Comparison) (values : List String) (literal : String) : Message :=
  let message := "Invalid picklist value \"" ++ literal ++ "\" for " ++ c.field
  match Nearest.closestName literal values with
  | some value =>
    .error "picklists" (message ++ ". Did you mean \"" ++ value ++ "\"?")
      (some (.replaceLiteral c.field literal value))
  | none =>
    .error "picklists" (message ++ ". Valid values: " ++ joined ", " (values.take 10)) none

def picklistErrors (main : SObject) (context : Context) (c : Comparison) : List Message :=
  if isPicklistOperator c.operator then
    match (PathWalk.walk context main c.field).field? with
    | some f =>
      if f.isPicklist && !f.values.isEmpty then
        let allowed := f.values.map lower
        (c.literals.filter fun l => !allowed.contains (lower l)).map (valueError c f.values)
      else []
    | none => []
  else []

def picklistRule (q : Query) (main : SObject) (context : Context) : List Message :=
  q.comparisons.flatMap (picklistErrors main context)

def wildcardRule (q : Query) : List Message :=
  (q.comparisons.filter fun c => c.operator == .like && c.literals.any (beginsWith · "%")).map fun c =>
    ⟨.warning, "governor",
      "Leading wildcard on " ++ c.field ++ " prevents index use and may scan every row", none, none⟩

def limitWarning (text : String) (limit : Int) : Message :=
  ⟨.warning, "governor", text, some (.applyLimit limit), some limit⟩

/-- The number of records: a limit that is absent is wanted unless the object is known to hold few. -/
def limitRule (validator : Validator) (q : Query) (main : Option SObject) (mainName : String) :
    List Message :=
  let volume := main.bind (·.recordCount)
  match q.limit with
  | some limit =>
    if limit > validator.maxRows then
      [limitWarning ("LIMIT " ++ toString limit ++ " exceeds the " ++ toString validator.maxRows ++
        " row ceiling") validator.maxRows]
    else []
  | none =>
    if volume.any (· ≤ validator.maxRows) then []
    else
      let size := match volume with
        | some n => " and " ++ mainName ++ " holds about " ++ toString n ++ " records"
        | none => ""
      [limitWarning ("Query has no LIMIT clause" ++ size ++ "; add \"LIMIT " ++
        toString validator.usualLimit ++ "\" to stay within governor limits")
        validator.usualLimit]

/-- The cost of a query. An object that describes the schema, or a single row made of many, needs no
limit. -/
def governorRule (validator : Validator) (q : Query) (main : Option SObject)
    (mainName : String) : List Message :=
  wildcardRule q ++
    if Vocabulary.toolingObjects.contains mainName || (q.hasAggregates && q.groupBy.isEmpty) then []
    else limitRule validator q main mainName

def validate (validator : Validator) (q : Query) (context : Context) : List Message :=
  let (main, objectErrors) := mainObjectOf q context
  let mainName := (main.map (·.name)).getD q.object
  let withMain (rule : Query → SObject → Context → List Message) : List Message :=
    match main with
    | some o => rule q o context
    | none => []
  syntaxRules q ++ toolingRule q mainName ++ objectErrors ++ withMain pathRule ++
    withMain typeOfRule ++ withMain childRule ++ withMain junctionRule ++ aggregateRule q ++
    semiJoinRule q context ++ literalRule q main context ++ withMain picklistRule ++
    governorRule validator q main mainName

end Validator

end Soql
