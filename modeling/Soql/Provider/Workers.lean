import Soql.Provider.World

/-!
Completions that worker threads make. Each thread keeps a log of the usage that it was told of, and no
thread sees the log of another; the work that waits for a completion goes on in a thread that is none of
the workers.
-/

namespace Soql

variable {σ τ α : Type}

structure ChatCall where
  request : ChatRequest
  answer : Except Failure ChatReply

def Provider.recorded (p : Provider σ) : Provider (σ × List ChatCall) where
  chat request := modifyGet fun (s, calls) =>
    let (answer, s) := p.chat request s
    (answer, (s, calls ++ [⟨request, answer⟩]))
  embed model text := onFirst (p.embed model text)

/-- Collaborators with workers: their states, the calls made so far, and the usage that was noted, each
time with the number of the worker that noted it. -/
structure Staffed (σ τ : Type) where
  world : σ
  provider : τ
  calls : List ChatCall := []
  noted : List (Nat × Usage) := []

namespace Staffed

def plain (x : Staffed σ τ) : σ × τ :=
  (x.world, x.provider)

def inWorld (work : StateM σ α) : StateM (Staffed σ τ) α :=
  modifyGet fun x =>
    let (a, world) := work x.world
    (a, { x with world })

def inProvider (work : StateM τ α) : StateM (Staffed σ τ) α :=
  modifyGet fun x =>
    let (a, provider) := work x.provider
    (a, { x with provider })

/-- Has a worker make a completion; the worker notes the usage of one that there is. -/
def inWorker (p : Provider τ) (worker : Nat) (request : ChatRequest) :
    StateM (Staffed σ τ) (Except Failure Completion) :=
  modifyGet fun x =>
    let (result, provider, calls) := p.recorded.complete request (x.provider, x.calls)
    let usage := (result.toOption.bind (·.usage)).toList
    (result, { x with provider, calls, noted := x.noted ++ usage.map (worker, ·) })

end Staffed

open Staffed

/-- Collaborators that have texts completed by workers, one of which is picked for each text. -/
def World.withWorkers (w : World σ) (p : Provider τ) (m : Models) (pick : Staffed σ τ → Nat) :
    World (Staffed σ τ) where
  catalog tenant := inWorld (w.catalog tenant)
  detail tenant name := inWorld (w.detail tenant name)
  vectors tenant names := inWorld (w.vectors tenant names)
  search tenant text := inWorld (w.search tenant text)
  embed text := do
    return .ofExcept (← inProvider (p.vector m.embedding text))
  complete role prompt := do
    return .ofExcept ((← inWorker p (pick (← get)) (m.request role prompt)).map (·.text))

end Soql
