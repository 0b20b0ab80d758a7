import Soql.Context.Basic
import Soql.Json.Parser
import Soql.Json.Printer
import Soql.Text.Fence
import Soql.Vocabulary

namespace Soql

open Text

/-- The plan of a query. How the tables connect and what else matters is kept as it was given. -/
structure Plan where
  summary : String := ""
  tables : List String := []
  columns : List String := []
  joinLogic : Json := .null
  globalContext : Json := .null
  deriving Inhabited

inductive PlanError where
  | noObject | noTables
  deriving DecidableEq, Repr, Inhabited

def PlanError.message : PlanError → String
  | noObject => "planner did not return a JSON object"
  | noTables => "plan lists no relevant tables"

namespace Plan

def toJson (p : Plan) : Json :=
  .record [
    ("summary", .text p.summary),
    ("relevant_tables", .ofTexts p.tables),
    ("relevant_columns", .ofTexts p.columns),
    ("join_logic", p.joinLogic),
    ("global_context", p.globalContext)]

def jsonIn (s : String) : Option Json :=
  match Json.parse (unfenced s) with
  | some .null => none
  | j => j

def braced (s : List Char) : Option (List Char) :=
  let inner := ((s.dropWhile (· != '\x7b')).reverse.dropWhile (· != '\x7d')).reverse
  if inner.isEmpty then none else some inner

/-- The value in a reply: the whole reply, or else what it holds in braces. -/
def valueIn (reply : String) : Option Json :=
  (jsonIn reply).orElse fun _ => (braced reply.toList).bind fun s => jsonIn (.ofList s)

/-- The texts of the first member that is a list: trimmed, each once, without empty ones. -/
def textsUnder (j : Json) (names : List String) : List String :=
  let lists := names.filterMap fun name =>
    match j.get name with
    | .list items => some items
    | _ => none
  (((lists.head?.getD []).map fun item => trimmed item.plain).filter (!·.isEmpty)).eraseDups

def read (reply : String) : Except PlanError Plan :=
  match valueIn reply with
  | some (.record members) =>
    let j := Json.record members
    let tables := textsUnder j ["relevant_tables", "relevantTables"]
    if tables.isEmpty then .error .noTables
    else .ok {
      tables
      summary := ((j.get "summary").orElse (.text "No summary provided")).plain
      columns := textsUnder j ["relevant_columns", "relevantColumns"]
      joinLogic := (j.get "join_logic").orElse (j.get "joinLogic")
      globalContext := (j.get "global_context").orElse (j.get "globalContext") }
  | _ => .error .noObject

/-- The tables that a plan names, and then the junction objects that the wording of a request requires
and the schema has. -/
def wantedTables (p : Plan) (request : String) (context : Context) : List String :=
  p.tables ++ (Vocabulary.junctionsIn request).filter fun junction =>
    !p.tables.contains junction && context.isKnown junction

def confirmedName (context : Context) (table : String) : Option String :=
  match context.get? table with
  | some o => some o.name
  | none => if context.isKnown table then some table else none

/-- The tables that a context confirms; when it confirms none, the first object of the request stands
in. -/
def confirmedTables (context : Context) (tables : List String) : List String :=
  match tables.filterMap (confirmedName context) with
  | [] => context.scope.take 1
  | kept => kept.eraseDups

def columnTable (column : String) : String :=
  lower ((splitAt '.' column).headD "")

/-- A plan in line with a request and a schema: with the junction objects that the wording requires,
without the tables that the schema does not have, and without the columns of other tables. -/
def adjusted (p : Plan) (request : String) (context : Context) : Plan :=
  let tables := confirmedTables context (p.wantedTables request context)
  { p with
    tables
    columns := p.columns.filter fun c => (tables.map lower).contains (columnTable c) }

end Plan

end Soql
