import Soql.Dialogue
import Soql.Text.Casing
import Soql.Text.Cut
import Soql.Usage

/-!
Having a provider of models complete texts. Models differ in the parameters that they take: a request
that is rejected for one of them is made again without it or with the newer name in its place. A call
that fails all the same is repeated a few times.
-/

namespace Soql

open Text

structure ChatRequest where
  model : String
  system : String
  user : String
  maxTokens : Int := 1200
  /-- the limit on tokens goes by its newer name -/
  newerLimit : Bool := false
  /-- how much chance there is in the answer, unless the model decides -/
  temperature : Option Json := some (.float 0.0)
  /-- the answer must be an object of JSON -/
  jsonOnly : Bool := false
  timeout : Option Json := none
  deriving Inhabited

def ChatRequest.toJson (r : ChatRequest) : Json :=
  let message (role content : String) : Json :=
    .record [("role", .text role), ("content", .text content)]
  .record (
    [("model", .text r.model),
      ("messages", .list [message "system" r.system, message "user" r.user]),
      (if r.newerLimit then "max_completion_tokens" else "max_tokens", .int r.maxTokens)] ++
    (r.temperature.toList.map fun t => ("temperature", t)) ++
    (if r.jsonOnly then [("response_format", .record [("type", .text "json_object")])] else []) ++
    (r.timeout.toList.map fun t => ("timeout", t)))

/-- What a provider answers: a text, if there is one, and a report on the tokens used, if it gives
one. -/
structure ChatReply where
  content : Option String
  usage : Option Json := none
  deriving Inhabited

structure Provider (σ : Type) where
  chat : ChatRequest → StateM σ (Except Failure ChatReply)
  embed : (model text : String) → StateM σ (Except Failure (List Float))

inductive Adjustment where
  | newerLimit | noTemperature | freeForm
  deriving DecidableEq, Repr, Inhabited

namespace Adjustment

def mentions (reason : String) (things : List String) : Bool :=
  things.all fun thing => isPartOf thing (lower reason)

def of? (request : ChatRequest) (reason : String) : Option Adjustment :=
  if mentions reason ["max_tokens", "max_completion_tokens"] && !request.newerLimit then
    some newerLimit
  else if mentions reason ["temperature", "supported"] then some noTemperature
  else if mentions reason ["response_format", "supported"] && request.jsonOnly then some freeForm
  else none

def apply (request : ChatRequest) : Adjustment → ChatRequest
  | newerLimit => { request with newerLimit := true }
  | noTemperature => { request with temperature := none }
  | freeForm => { request with jsonOnly := false }

end Adjustment

def isReasoningModel (model : String) : Bool :=
  let model := lower model
  ["o1", "o3", "o4"].any (beginsWith model) || isPartOf "gpt-5" model

def jsonReminder : String :=
  "\n\nReturn JSON only."

def ChatRequest.initial (r : ChatRequest) : ChatRequest :=
  let reasons := isReasoningModel r.model
  { r with
    user := if r.jsonOnly then r.user ++ jsonReminder else r.user
    newerLimit := reasons
    temperature := if reasons then none else r.temperature }

structure Completion where
  text : String
  report : Option Json := none
  usage : Option Usage := none
  deriving Inhabited

namespace Completion

def filledReport (report : Json) : Json :=
  .record (["prompt_tokens", "completion_tokens", "total_tokens"].map fun name =>
    (name, (report.get? name).getD (.int 0)))

def ofReply (reply : ChatReply) : Except Failure Completion := do
  let text := trimmed (reply.content.getD "")
  match reply.usage with
  | none => return { text }
  | some report =>
    let report := filledReport report
    return { text, report := some report, usage := some (← Usage.ofReport report) }

end Completion

namespace Provider

variable {σ α : Type}

def maxAttempts : Nat :=
  3

def retried (call : StateM σ (Except Failure α)) : (more : Nat) → StateM σ (Except Failure α)
  | 0 => call
  | more + 1 => do
    match ← call with
    | .ok a => return .ok a
    | .error _ => retried call more

def unavailable (model reason : String) : Failure :=
  .unreachable "completion" ("OpenAI model '" ++ model ++ "' is not available: " ++ reason)

def finalFailure (model : String) : Failure → Failure
  | .rejected reason => unavailable model reason
  | f => f

variable (p : Provider σ)

def chatAdjusting (request : ChatRequest) : StateM σ (Except Failure ChatReply) := do
  match ← p.chat request with
  | .error (.rejected reason) =>
    match Adjustment.of? request reason with
    | none => return .error (unavailable request.model reason)
    | some adjustment =>
      return (← p.chat (adjustment.apply request)).mapError (finalFailure request.model)
  | answer => return answer

def complete (request : ChatRequest) : StateM σ (Except Failure Completion) :=
  let once : StateM σ (Except Failure Completion) := do
    return (← p.chatAdjusting request.initial).bind Completion.ofReply
  retried once (maxAttempts - 1)

def vector (model text : String) : StateM σ (Except Failure (List Float)) :=
  retried (p.embed model text) (maxAttempts - 1)

end Provider

structure Models where
  plan : String := "gpt-4o-mini"
  code : String := "gpt-4o-mini"
  embedding : String := "text-embedding-3-small"
  timeout : Option Json := none
  deriving Inhabited

def Models.request (m : Models) (role : Role) (prompt : Prompt) : ChatRequest where
  model := match role with
    | .plan => m.plan
    | .code => m.code
  system := prompt.system
  user := prompt.user
  jsonOnly := role == .plan
  timeout := m.timeout

end Soql
