import Soql.Context.Assembly
import Soql.Context.Cache

/-!
Assembling contexts of one tenant for several requests at once, while the schema of the tenant may
change. A call looks its request up when it begins, may then wait at each question, and keeps its
context when it ends; what other calls and changes do in between is up to the order of events.
-/

namespace Soql

/-- A context and the schemas, counted by the changes before them, that its object details are from. -/
structure Sourced where
  context : Context
  sources : List Nat
  deriving Inhabited

structure Call where
  request : String
  /-- the schema that was announced last when the call began -/
  began : Nat
  /-- the schema at which the call asked the question that it waits for -/
  asked : Nat
  /-- the schemas from which it has object details -/
  sources : List Nat
  work : Dialogue Assembler.Assembled

structure Storing where
  began : Nat
  /-- the schema that was announced last when the context was kept -/
  announced : Nat
  sources : List Nat
  deriving DecidableEq

/-- The call began before a schema was announced, and kept details from an earlier schema after that. -/
def Storing.Overtaken (s : Storing) : Prop :=
  s.began < s.announced ∧ ∃ v ∈ s.sources, v < s.announced

instance (s : Storing) : Decidable s.Overtaken :=
  inferInstanceAs (Decidable (_ ∧ _))

structure Returned where
  request : String
  began : Nat
  content : Sourced

structure Desk (τ : Type) where
  /-- the number of changes that the schema has undergone -/
  schema : Nat := 0
  /-- the schema that was announced last -/
  announced : Nat := 0
  cache : Cache τ Sourced := []
  calls : List Call := []
  stored : List Storing := []
  returned : List Returned := []

inductive DeskEvent (τ : Type) where
  | change
  | announce
  | start (now : τ) (request : String)
  /-- a call gets an answer; object details are read from some schemas between question and answer -/
  | reply (call : Nat) (answer : (q : Question) → q.Answer) (read : List Nat)
  | finish (now : τ) (call : Nat)
  | cancel (call : Nat)

def Question.isDetails : Question → Bool
  | details _ _ => true
  | _ => false

def Call.hear (schema : Nat) (answer : (q : Question) → q.Answer) (read : List Nat) (c : Call) : Call :=
  match c.work with
  | .ask q next =>
    let read := if q.isDetails then read.filter fun v => decide (c.asked ≤ v) && decide (v ≤ schema) else []
    { c with asked := schema, sources := c.sources ++ read, work := next (answer q) }
  | _ => c

namespace Desk

variable {τ : Type} [Sub τ] [LT τ] [DecidableLT τ]
variable (a : Assembler) (policy : CachePolicy τ) (tenant : Tenant)

def start (now : τ) (request : String) (desk : Desk τ) : Desk τ :=
  let (held, cache) := desk.cache.get policy now request tenant
  { desk with
    cache
    calls := desk.calls ++ [{
      request
      began := desk.announced
      asked := desk.schema
      sources := (held.map (·.sources)).getD []
      work := a.assemble (held.map (·.context)) request tenant }] }

def finish (now : τ) (n : Nat) (desk : Desk τ) : Desk τ :=
  match desk.calls[n]? with
  | none => desk
  | some c =>
    let calls := desk.calls.eraseIdx n
    match c.work with
    | .done (.kept context) =>
      { desk with calls, returned := desk.returned ++ [⟨c.request, c.began, ⟨context, c.sources⟩⟩] }
    | .done (.made context) =>
      { desk with
        cache := desk.cache.put policy now c.request ⟨context, c.sources⟩ tenant
        calls
        stored := desk.stored ++ [⟨c.began, desk.announced, c.sources⟩]
        returned := desk.returned ++ [⟨c.request, c.began, ⟨context, c.sources⟩⟩] }
    | .failed _ => { desk with calls }
    | .ask _ _ => desk

def step (desk : Desk τ) : DeskEvent τ → Desk τ
  | .change => { desk with schema := desk.schema + 1 }
  | .announce => { desk with announced := desk.schema, cache := desk.cache.invalidate tenant }
  | .start now request => desk.start a policy tenant now request
  | .reply n answer read => { desk with calls := desk.calls.modify n (·.hear desk.schema answer read) }
  | .finish now n => desk.finish policy tenant now n
  | .cancel n => { desk with calls := desk.calls.eraseIdx n }

def run (events : List (DeskEvent τ)) : Desk τ :=
  events.foldl (step a policy tenant) {}

end Desk

end Soql
