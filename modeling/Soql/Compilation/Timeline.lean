import Soql.Context.Basic
import Soql.Plan.Basic
import Soql.Repair.Engine

namespace Soql

inductive Verdict where
  /-- there is a query without errors -/
  | valid
  /-- there is a query, but it may have errors -/
  | degraded
  /-- there is no query -/
  | failed
  deriving DecidableEq, Repr, Inhabited

def Verdict.text : Verdict → String
  | valid => "valid"
  | degraded => "degraded"
  | failed => "failed"

inductive TimelineEntry where
  /-- the schema was searched -/
  | context (objects grounding : List String) (degraded : Bool)
  /-- a plan was made, or was refused -/
  | plan (plan : Except PlanError Plan)
  /-- a query was drafted -/
  | draft (attempt : Nat) (query : String) (errors : List String)
  /-- a draft was corrected -/
  | repair (attempt : Nat) (event : Repair.Event)
  /-- another draft is asked for -/
  | regenerate (attempt : Nat) (reason : String)
  /-- no further draft may be asked for -/
  | exhausted
  /-- the work ended -/
  | final (status : Verdict) (query : Option String)
  deriving Inhabited

def TimelineEntry.ofContext (c : Context) : TimelineEntry :=
  .context (c.objects.map (·.name)) ((c.grounding.filter (·.isGrounded)).map (·.hint)) c.degraded

def TimelineEntry.toJson : TimelineEntry → Json
  | context objects grounding degraded =>
    .record [("phase", .text "context"), ("objects", .ofTexts objects),
      ("grounding", .ofTexts grounding), ("degraded", .bool degraded)]
  | plan (.ok p) =>
    .record [("phase", .text "plan"), ("plan", p.toJson), ("errors", .list [])]
  | plan (.error e) =>
    .record [("phase", .text "plan"), ("plan", .null), ("errors", .ofTexts [e.message])]
  | draft attempt query errors =>
    .record [("phase", .text "draft"), ("attempt", .int attempt), ("query", .text query),
      ("parse_errors", .ofTexts errors)]
  | repair attempt event => .record (event.members ++ [("attempt", .int attempt)])
  | regenerate attempt reason =>
    .record [("phase", .text "regenerate"), ("attempt", .int attempt), ("reason", .text reason)]
  | exhausted =>
    .record [("phase", .text "exhausted"), ("state", .text Repair.Status.exhausted.text)]
  | final status query =>
    .record [("phase", .text "final"), ("status", .text status.text), ("soql", .ofText? query)]

end Soql
