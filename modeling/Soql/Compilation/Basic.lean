import Soql.Compilation.Timeline
import Soql.Query.Render

namespace Soql

structure Compiled where
  status : Verdict
  query : Option String
  plan : Option Plan
  diagnostics : List Message
  passes : Int
  regenerations : Nat
  corrections : List String
  timeline : List TimelineEntry
  /-- the query was put together from single names of a draft that never parsed -/
  tolerant : Bool
  deriving Inhabited

namespace Compiled

def errors (r : Compiled) : List Message :=
  Message.errors r.diagnostics

def toJson (r : Compiled) : Json :=
  .record [
    ("soql", .ofText? r.query),
    ("status", .text r.status.text),
    ("plan", (r.plan.map Plan.toJson).getD .null),
    ("diagnostics", .list (r.diagnostics.map Message.toJson)),
    ("repair_passes_used", .int r.passes),
    ("regenerations_used", .int r.regenerations),
    ("corrections", .ofTexts r.corrections),
    ("tolerant", .bool r.tolerant)]

end Compiled

structure Try where
  attempt : Nat
  query : Query
  context : Context
  outcome : Repair.Outcome
  deriving Inhabited

structure Compilation where
  request : String
  timeline : List TimelineEntry := []
  plan : Option Plan := none
  /-- the drafts that were corrected so far -/
  tries : List Try := []
  /-- the outcome with the fewest errors so far, of several the latest -/
  best : Option Repair.Outcome := none
  passes : Int := 0
  regenerations : Nat := 0
  corrections : List String := []
  deriving Inhabited

namespace Compilation

variable (c : Compilation)

def note (entry : TimelineEntry) : Compilation :=
  { c with timeline := c.timeline ++ [entry] }

def better (best : Option Repair.Outcome) (outcome : Repair.Outcome) : Repair.Outcome :=
  match best with
  | none => outcome
  | some b => if outcome.errors.length ≤ b.errors.length then outcome else b

def record (t : Try) : Compilation :=
  { c with
    passes := c.passes + t.outcome.passes
    corrections := c.corrections ++ t.outcome.corrections
    timeline := c.timeline ++ t.outcome.events.map (.repair t.attempt)
    tries := c.tries ++ [t]
    best := some (better c.best t.outcome) }

def regenerate (reason : String) : Compilation :=
  { c with
    regenerations := c.regenerations + 1
    timeline := c.timeline ++ [.regenerate (c.regenerations + 1) reason] }

def result (status : Verdict) (query : Option String) (diagnostics : List Message)
    (tolerant : Bool) : Compiled := {
  status, query, diagnostics, tolerant
  plan := c.plan
  passes := c.passes
  regenerations := c.regenerations
  corrections := c.corrections
  timeline := c.timeline ++ [.final status query] }

def failed (diagnostics : List Message) : Compiled :=
  c.result .failed none diagnostics false

def degraded (more : List Message) : Compiled :=
  match c.best with
  | none => c.failed more
  | some best => c.result .degraded (some best.query.render) (best.diagnostics ++ more) false

def aborted (complaint : Message) : Compiled :=
  c.failed ((c.best.map (·.diagnostics)).getD [] ++ [complaint])

end Compilation

end Soql
