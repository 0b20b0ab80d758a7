import Soql.Dialogue

/-!
Collaborators that answer, and the time that waiting for them takes. Calls take no time unless there
is no answer; then the wait lasts as long as it may.
-/

namespace Soql

structure World (σ : Type) where
  catalog : Tenant → StateM σ (Reply (List Summary))
  detail : Tenant → String → StateM σ (Reply (Option SObject))
  vectors : Tenant → List String → StateM σ (Reply Vectors)
  embed : String → StateM σ (Reply (List Float))
  search : Tenant → String → StateM σ (Reply (List Record))
  complete : Role → Prompt → StateM σ (Reply String)

structure Clocked (σ : Type) where
  now : Float := 0.0
  state : σ

namespace Clocked

variable {σ : Type}

def tick : Float :=
  0.000001

/-- Reads the clock; no two readings are the same. -/
def read : StateM (Clocked σ) Float :=
  modifyGet fun c => (c.now + tick, { c with now := c.now + tick })

def wait (seconds : Float) : StateM (Clocked σ) Unit :=
  modify fun c => { c with now := c.now + seconds }

def within {α : Type} (work : StateM σ α) : StateM (Clocked σ) α :=
  modifyGet fun c =>
    let (a, state) := work c.state
    (a, { c with state })

end Clocked

inductive Response (α : Type) where
  | after (seconds : Float) (a : α)
  | never
  deriving Inhabited

namespace Response

def ofReply {α : Type} : Reply α → Response (Except Failure α)
  | .answered a => .after 0.0 (.ok a)
  | .failed f => .after 0.0 (.error f)
  | .silent => .never

end Response

namespace World

variable {σ : Type} (w : World σ)

def both {α β : Type} : Reply α → Reply β → Reply (α × β)
  | .failed f, _ => .failed f
  | _, .failed f => .failed f
  | .answered a, .answered b => .answered (a, b)
  | _, _ => .silent

def isSilent {α : Type} : Reply α → Bool
  | .silent => true
  | _ => false

def answer : (q : Question) → StateM σ (Response q.Answer)
  | .catalog tenant => do
    return .ofReply (← w.catalog tenant)
  | .details tenant names => do
    return .ofReply (Reply.all (← names.mapM (w.detail tenant)))
  | .vectors tenant names text => do
    let stored ← w.vectors tenant names
    let request ← w.embed text
    return .ofReply (both stored request)
  | .searches tenant time texts awaited => do
    -- Without any time the searches are given up before they are made.
    if time ≤ 0.0 then return .after 0.0 (texts.map fun _ => .silent)
    let replies ← texts.mapM (w.search tenant)
    return .after (if awaited && replies.any isSilent then time else 0.0) replies
  | .completion role prompt => do
    return .ofReply (← w.complete role prompt)

end World

inductive Ending (α : Type) where
  | done (a : α)
  | failed (failure : Failure)
  /-- the time is over -/
  | expired
  deriving Inhabited

/-- Carries work out until it ends or the time is over; without a time it never is, and work that gets
no answer then counts as expired at once. -/
def Dialogue.run {σ α : Type} (w : World σ) (expires : Option Float) :
    Dialogue α → StateM (Clocked σ) (Ending α)
  | .done a => return .done a
  | .failed f => return .failed f
  | .ask q next => do
    match ← Clocked.within (w.answer q) with
    | .never =>
      modify fun c => { c with now := expires.getD c.now }
      return .expired
    | .after seconds a =>
      let now := (← get).now
      if seconds > 0.0 && expires.any (· ≤ now + seconds) then
        modify fun c => { c with now := expires.getD c.now }
        return .expired
      else
        Clocked.wait seconds
        (next a).run w expires

end Soql
