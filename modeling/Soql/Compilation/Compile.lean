import Soql.Compilation.Basic
import Soql.Context.Prompt
import Soql.Context.Session
import Soql.Draft
import Soql.Plan.Asking
import Soql.Query.Loose
import Soql.Query.Parser
import Soql.RunLog
import Soql.Validation.RawText
import Soql.Validation.Rules

/-!
Compiling a request into a query: its context is assembled, a plan is made, and queries are drafted and
corrected until one is valid or no further draft may be asked for. All of it happens within a time, and
whatever collaborators do, the best that was reached is what is left.
-/

namespace Soql

structure Compiler where
  assembler : Assembler := {}
  policy : CachePolicy Float := .standard
  validator : Validator := {}
  bounds : Repair.Bounds := {}
  maxRegenerations : Int := 2
  deadline : Float := 60.0
  /-- the time for one completion, if that is limited -/
  completionTime : Option Float := some 30.0
  deriving Inhabited

structure Session (σ : Type) where
  clock : Clocked σ
  cache : ContextCache := []
  log : Option RunLog := none
  /-- what models took, as far as it is told to whoever compiles -/
  usage : List Usage := []

namespace Session

variable {σ α : Type}

def onClock (work : StateM (Clocked σ) α) : StateM (Session σ) α :=
  modifyGet fun s =>
    let (a, clock) := work s.clock
    (a, { s with clock })

def onCache (work : Keeping σ α) : StateM (Session σ) α :=
  modifyGet fun s =>
    let ((a, cache), clock) := work s.cache s.clock
    (a, { s with cache, clock })

end Session

/-- The state of a compilation: what lasts, and what is known of the compilation itself. -/
structure Compiling (σ : Type) where
  session : Session σ
  compilation : Compilation

abbrev CompileM (σ : Type) := ExceptT Failure (StateM (Compiling σ))

namespace CompileM

variable {σ α : Type}

def inSession (work : StateM (Session σ) α) : CompileM σ α :=
  ExceptT.lift <| modifyGet fun c =>
    let (a, session) := work c.session
    (a, { c with session })

def change (f : Compilation → Compilation) : CompileM σ Unit :=
  ExceptT.lift <| modify fun c => { c with compilation := f c.compilation }

def note (entry : TimelineEntry) : CompileM σ Unit :=
  change (·.note entry)

def known : CompileM σ Compilation := do
  return (← get).compilation

end CompileM

open CompileM

/-- The failure of work that was not done in time: the whole time is over, or only that for one
completion. -/
def Failure.expired (withinTime : Option Float) : Failure :=
  match withinTime with
  | none => .late "deadline exceeded waiting on an external call"
  | some seconds =>
    .unreachable "completion" ("no response within " ++ Decimal.fixed 1 seconds ++ "s")

def complaint (rule text : String) : Message :=
  .error rule text none

namespace Compiler

variable {σ : Type} (w : World σ) (c : Compiler)

def bounded {α : Type} (expires : Float) (time : Option Float)
    (work : (expires : Float) → StateM (Session σ) (Ending α)) : CompileM σ α := do
  let now ← inSession (Session.onClock Clocked.read)
  let remaining := expires - now
  if remaining ≤ 0.0 then throw (.late "deadline exceeded before the next step")
  -- Of the two limits the shorter one tells whose time was over.
  let shorter := time.filter fun t => !(remaining ≤ t)
  let limit := shorter.getD remaining
  let ending ← if limit ≤ 0.0 then pure .expired else inSession (work (now + limit))
  match ending with
  | .done a => return a
  | .failed f => throw f
  | .expired => throw (.expired shorter)

def talk {α : Type} (expires : Float) (time : Option Float) (d : Dialogue α) : CompileM σ α :=
  bounded expires time fun expires => Session.onClock (d.run w (some expires))

def hydrated (expires : Float) (q : Query) (context : Context) (tenant : Tenant) :
    CompileM σ Context := do
  return (← talk w expires none (completeFor q context tenant)).getD context

/-- A query that names nothing but its object. -/
def bareQuery (object : String) : Query :=
  { object, items := [] }

def madeUp (sofar : Compilation) (context : Context) (text : String) (complaints : List Message) :
    Compiled :=
  match Loose.extract text context.get? with
  | .error e => sofar.failed (complaints ++ [complaint "parse" e.message])
  | .ok q =>
    sofar.result .degraded (some q.render) (complaints ++ c.validator.validate q context) true

/-- Ends a compilation whose last draft does not parse: with the best outcome of an earlier draft, or
else with what single names of the draft make up. -/
def endTolerantly (expires : Float) (tenant : Tenant) (context : Context) (text : String)
    (complaints : List Message) : CompileM σ Compiled := do
  let sofar ← known
  if sofar.best.isSome then return sofar.degraded complaints
  -- The object may be known by its name alone.
  let context ← match Loose.mainObject text with
    | some object =>
      if !object.isEmpty && (context.get? object).isNone && context.isKnown object then
        hydrated w expires (bareQuery object) context tenant
      else pure context
    | none => pure context
  return c.madeUp sofar context text complaints

def repaired (q : Query) (context : Context) : Except Failure Repair.Outcome :=
  (Repair.run (fun q => (pure (c.validator.validate q context) : StateM Unit (List Message)))
    c.bounds q 0 ()).1

abbrev Again (σ : Type) :=
  Option (Context → (feedback : List String) → CompileM σ Compiled)

def fromUnread (expires : Float) (tenant : Tenant) (again : Again σ) (context : Context)
    (text : String) (e : ParseError) : CompileM σ Compiled := do
  note (.draft (← known).regenerations text [e.message])
  let raw := RawText.check text
  match again with
  | some again =>
    change (·.regenerate "draft did not parse")
    again context (e.message :: raw.map (·.text))
  | none => endTolerantly w c expires tenant context text (complaint "parse" e.message :: raw)

def fromQuery (expires : Float) (tenant : Tenant) (again : Again σ) (context : Context)
    (text : String) (q : Query) : CompileM σ Compiled := do
  note (.draft (← known).regenerations text [])
  let context ← hydrated w expires q context tenant
  match c.repaired q context with
  | .error f => throw f
  | .ok outcome =>
    change fun sofar => sofar.record ⟨sofar.regenerations, q, context, outcome⟩
    if outcome.status == .valid then
      return (← known).result .valid (some outcome.query.render) outcome.diagnostics false
    match again with
    | some again =>
      change (·.regenerate outcome.reason)
      again context (outcome.errors.map (·.text))
    | none =>
      note .exhausted
      return (← known).degraded []

def draftThen (expires : Float) (tenant : Tenant) (request : String) (plan : Plan)
    (again : Again σ) (context : Context) (feedback : List String) : CompileM σ Compiled := do
  let draft ← talk w expires c.completionTime (Draft.make request plan context feedback)
  match Query.parse draft.query with
  | .error .countTooLong => throw .notANumber
  | .error e => fromUnread w c expires tenant again context draft.query e
  | .ok q => fromQuery w c expires tenant again context draft.query q

def drafts (expires : Float) (tenant : Tenant) (request : String) (plan : Plan) :
    (left : Nat) → Context → (feedback : List String) → CompileM σ Compiled
  | 0 => draftThen w c expires tenant request plan none
  | left + 1 =>
    draftThen w c expires tenant request plan (some (drafts expires tenant request plan left))

def startLog (now : Moment) (request : String) (tenant : Tenant) (context : Context) :
    StateM (Session σ) Unit :=
  modify fun s => { s with
    log := s.log.map fun log =>
      log.start now request (context.format []) (.record [("tenant", .ofText? tenant)]) }

def planThen (now : Moment) (request : String) (tenant : Tenant) (expires : Float)
    (context : Context) : CompileM σ Compiled := do
  note (.ofContext context)
  inSession (startLog now request tenant context)
  let plan ← talk w expires c.completionTime (Plan.make request context)
  change fun sofar => { sofar with plan := plan.toOption }
  note (.plan plan)
  match plan with
  | .error e => return (← known).failed [complaint "plan" e.message]
  | .ok plan => drafts w c expires tenant request plan c.maxRegenerations.toNat context []

def steps (now : Moment) (request : String) (tenant : Tenant) (expires : Float) :
    CompileM σ Compiled := do
  let assembled ← bounded expires none fun expires =>
    Session.onCache (c.assembler.obtain w c.policy (some expires) request tenant)
  planThen w c now request tenant expires assembled.context

/-- What a compilation comes to that stopped on the way. Only failures of collaborators and of time are
results. -/
def ended (sofar : Compilation) : Except Failure Compiled → Except Failure Compiled
  | .ok result => .ok result
  | .error (.late reason) => .ok (sofar.degraded [complaint "deadline" reason])
  | .error (.unreachable capability reason) =>
    .ok (sofar.aborted (complaint "capability" (Failure.unreachable capability reason).reason))
  | .error f => .error f

def noteResult (now : Moment) (request : String) (usage : Usage) (result : Compiled)
    (log : RunLog) : Except Failure Unit × RunLog :=
  match log.noteTimeline now request (result.timeline.map (·.toJson)) c.maxRegenerations with
  | (.error f, noted) => (.error f, noted)
  | (.ok (), noted) => (.ok (), (noted.noteUsage now usage.toJson).finish now result.status.text
      [("soql", .ofText? result.query), ("corrections", .ofTexts result.corrections)])

/-- Ends a compilation: a result is noted in the log, if there is one. -/
def conclude (now : Moment) (request : String) (stopped : Except Failure Compiled × Compiling σ) :
    StateM (Session σ) (Except Failure Compiled) := do
  let session := stopped.2.session
  set session
  match ended stopped.2.compilation stopped.1 with
  | .error f => return .error f
  | .ok result =>
    match session.log.map (noteResult c now request (Usage.sum session.usage) result) with
    | none => return .ok result
    | some (noted, log) =>
      set { session with log := some log }
      return noted.map fun _ => result

def compile (now : Moment) (request : String) (tenant : Tenant) (deadline : Option Float) :
    StateM (Session σ) (Except Failure Compiled) := do
  modify fun s => { s with usage := [] }
  let started ← Session.onClock Clocked.read
  let expires := started + deadline.getD c.deadline
  let stopped := (steps w c now request tenant expires).run
    { session := ← get, compilation := { request } }
  conclude c now request stopped

def schemaChanged (tenant : Tenant) : StateM (Session σ) Unit :=
  modify fun s => { s with cache := s.cache.invalidate tenant }

end Compiler

end Soql
