import Soql.Query.Render
import Soql.Validation.Message

/-!
Correcting a query until it is valid. Each pass makes all known corrections at once and checks the
result; a pass that adds errors is taken back, and passes that change nothing for the better end the
work. What checks a query is a parameter, and may answer otherwise each time.
-/

namespace Soql.Repair

inductive Status where
  | valid | repairable | needsRegeneration | exhausted
  deriving DecidableEq, Repr, Inhabited

def Status.text : Status → String
  | valid => "valid"
  | repairable => "repairable"
  | needsRegeneration => "needs_regeneration"
  | exhausted => "exhausted"

def classify (messages : List Message) : Status :=
  let errors := Message.errors messages
  if errors.isEmpty then .valid
  else if errors.all (·.action.isSome) then .repairable
  else .needsRegeneration

inductive Event where
  | pass (number : Int) (errorsBefore errorsAfter : Nat) (actions : List String) (query : String)
      (rolledBack : Bool)
  | limit (query : String)
  deriving DecidableEq, Repr, Inhabited

def Event.members : Event → List (String × Json)
  | pass number errorsBefore errorsAfter actions query rolledBack =>
    [("phase", .text "repair"), ("pass", .int number), ("errors_before", .int errorsBefore),
      ("errors_after", .int errorsAfter), ("actions", .ofTexts actions), ("query", .text query)] ++
      if rolledBack then [("rolled_back", .bool true)] else []
  | limit query => [("phase", .text "limit"), ("query", .text query)]

structure Outcome where
  status : Status
  query : Query
  diagnostics : List Message
  passes : Int
  corrections : List String
  events : List Event
  reason : String := ""
  deriving DecidableEq, Inhabited

def Outcome.errors (o : Outcome) : List Message :=
  Message.errors o.diagnostics

structure Progress where
  query : Query
  messages : List Message
  passes : Int
  /-- the passes in a row that left as many errors as there were -/
  stalls : Nat := 0
  corrections : List String := []
  events : List Event := []
  deriving DecidableEq, Inhabited

def Progress.finish (p : Progress) (status : Status) (reason : String) : Outcome :=
  ⟨status, p.query, p.messages, p.passes, p.corrections, p.events, reason⟩

def wantedActions (messages : List Message) : List Action :=
  ((Message.errors messages).filterMap (·.action)).eraseDups

/-- All numbers can be written in the words for some corrections and in the query that they make. -/
def isWritten (actions : List Action) (candidate : Query) : Bool :=
  candidate.isShort && actions.all fun
    | .applyLimit limit => Decimal.isShort limit
    | _ => true

def limitWarnings (messages : List Message) : List Message :=
  messages.filter fun m => !m.isError && match m.action with
    | some (.applyLimit _) => true
    | _ => false

section

variable {σ : Type} (check : Query → StateM σ (List Message))

/-- Ends the work on a valid query with the first limit that is asked for, unless that makes it
invalid. The warnings that the limit answers stay, after the messages of the last check. -/
def settleValid (p : Progress) : StateM σ (Except Failure Outcome) := do
  match limitWarnings p.messages with
  | [] => return .ok (p.finish .valid "")
  | warning :: others =>
    match warning.action with
    | none => return .ok (p.finish .valid "")
    | some action =>
      let candidate := action.apply p.query
      let recheck ← check candidate
      if !(Message.errors recheck).isEmpty then return .ok (p.finish .valid "")
      if !isWritten [action] candidate then return .error .tooLong
      let limits := warning :: others
      return .ok {
        status := .valid
        query := candidate
        diagnostics := recheck.filter (!limits.contains ·) ++ limits
        passes := p.passes
        corrections := p.corrections ++ [action.describe]
        events := p.events ++ [.limit candidate.render] }

def loop (stallLimit : Int) : (left : Nat) → Progress → StateM σ (Except Failure Outcome)
  | left, p => do
    let errors := (Message.errors p.messages).length
    match classify p.messages with
    | .valid => settleValid check p
    | .repairable =>
      match left with
      | 0 => return .ok (p.finish .needsRegeneration "pass budget spent")
      | left + 1 =>
        let actions := wantedActions p.messages
        match Action.performAll p.query actions with
        | .error f => return .error f
        | .ok candidate =>
          let messages ← check candidate
          if !isWritten actions candidate then return .error .tooLong
          let after := (Message.errors messages).length
          let rolledBack : Bool := after > errors
          let described := actions.map Action.describe
          let event := Event.pass (p.passes + 1) errors after described candidate.render rolledBack
          -- What went wrong is taken back, but it did happen.
          if rolledBack then
            let p := { p with passes := p.passes + 1, events := p.events ++ [event] }
            return .ok (p.finish .needsRegeneration "repair increased errors")
          let next : Progress := {
            query := candidate
            messages
            passes := p.passes + 1
            stalls := if after == errors then p.stalls + 1 else 0
            corrections := p.corrections ++ described
            events := p.events ++ [event] }
          if (next.stalls : Int) ≥ stallLimit && after > 0 then
            return .ok (next.finish .needsRegeneration "repair stalled")
          loop stallLimit left next
    | _ => return .ok (p.finish .needsRegeneration "unrepairable errors")

structure Bounds where
  maxPasses : Int := 5
  stallLimit : Int := 2
  deriving DecidableEq, Repr, Inhabited

def run (bounds : Bounds) (q : Query) (passesUsed : Int) : StateM σ (Except Failure Outcome) := do
  let messages ← check q
  loop check bounds.stallLimit (bounds.maxPasses - passesUsed).toNat
    { query := q, messages, passes := passesUsed }

end

end Soql.Repair
