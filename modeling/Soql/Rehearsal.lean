import Soql.World

/-!
Collaborators that play from a script: schemas held in memory whose methods may be set to fail or to
stay silent, vectors that are written down, and completions taken from a list. What they were asked is
kept.
-/

namespace Soql

inductive GraphMethod where
  | catalog | detail | vectors | search
  deriving DecidableEq, Repr, Inhabited

structure Rehearsal where
  graph : SchemaGraph := []
  /-- a method that does not answer fails or stays silent as set here -/
  disturbed : GraphMethod → Reply Unit := fun _ => .answered ()
  embed : String → Reply (List Float) := fun _ => .answered []
  plan : Reply String := .silent
  /-- one for each query asked for; the last one repeats -/
  drafts : List (Reply String) := []
  searches : List String := []
  prompts : List (Role × Prompt) := []

namespace Rehearsal

def play {α : Type} (r : Rehearsal) (method : GraphMethod) (answer : α) : Reply α :=
  match r.disturbed method with
  | .answered _ => .answered answer
  | .failed f => .failed f
  | .silent => .silent

def nextDraft (r : Rehearsal) : Reply String :=
  let asked := (r.prompts.filter (·.1 == .code)).length
  (r.drafts[min asked (r.drafts.length - 1)]?).getD .silent

def world : World Rehearsal where
  catalog tenant := modifyGet fun r => (r.play .catalog (r.graph.summaries tenant), r)
  detail tenant name := modifyGet fun r => (r.play .detail (r.graph.detail tenant name), r)
  vectors tenant names := modifyGet fun r => (r.play .vectors (r.graph.vectors tenant names), r)
  embed text := modifyGet fun r => (r.embed text, r)
  search tenant text := modifyGet fun r =>
    (r.play .search (r.graph.search tenant text), { r with searches := r.searches ++ [text] })
  complete role prompt := modifyGet fun r =>
    (match role with
      | .plan => r.plan
      | .code => r.nextDraft,
    { r with prompts := r.prompts ++ [(role, prompt)] })

end Rehearsal

end Soql
