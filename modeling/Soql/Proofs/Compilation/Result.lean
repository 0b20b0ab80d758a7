import Soql.Proofs.Compilation.Delivery
import Soql.Rehearsal

namespace Soql

variable {σ : Type}

namespace Compiler

variable (w : World σ) (c : Compiler) (now : Moment) (request : String) (tenant : Tenant)
  (deadline : Option Float)

def begun (s : Session σ) : Session σ :=
  { s.ticked with usage := [] }

def deadlineOf (s : Session σ) : Float :=
  (Clocked.read.run s.clock).1 + deadline.getD c.deadline

theorem compile_run (s : Session σ) :
    (compile w c now request tenant deadline).run s =
      (conclude c now request ((steps w c now request tenant (deadlineOf c deadline s)).run.run
        { session := begun s, compilation := { request } })).run (begun s) :=
  rfl

def atEnd (s : Session σ) : Compilation :=
  ((steps w c now request tenant (deadlineOf c deadline s)).run.run
    { session := begun s, compilation := { request } }).2.compilation

def reached (s : Session σ) : Except Failure Compiled :=
  let stopped := (steps w c now request tenant (deadlineOf c deadline s)).run.run
    { session := begun s, compilation := { request } }
  ended stopped.2.compilation stopped.1

theorem conclude_run (stopped : Except Failure Compiled × Compiling σ) (s : Session σ) :
    (conclude c now request stopped).run s =
      match ended stopped.2.compilation stopped.1 with
      | .error f => (.error f, stopped.2.session)
      | .ok result =>
        match stopped.2.session.log.map (noteResult c now request (Usage.sum stopped.2.session.usage) result) with
        | none => (.ok result, stopped.2.session)
        | some (noted, log) => (noted.map fun _ => result, { stopped.2.session with log := some log }) := by
  unfold conclude
  dsimp only
  cases ended stopped.2.compilation stopped.1 with
  | error f => rfl
  | ok result =>
    dsimp only
    cases stopped.2.session.log.map (noteResult c now request (Usage.sum stopped.2.session.usage) result) <;> rfl

/-- A compilation that comes to a result has reached it. -/
theorem conclude_ok {stopped : Except Failure Compiled × Compiling σ} {s : Session σ} {r : Compiled}
    (h : ((conclude c now request stopped).run s).1 = .ok r) : ended stopped.2.compilation stopped.1 = .ok r := by
  rw [conclude_run] at h
  cases hended : ended stopped.2.compilation stopped.1 with
  | error f =>
    rw [hended] at h
    cases h
  | ok result =>
    rw [hended] at h
    cases hlog : stopped.2.session.log with
    | none =>
      rw [hlog] at h
      exact h
    | some log =>
      rw [hlog] at h
      change Except.map _ (noteResult c now request _ result log).1 = _ at h
      cases hnoted : (noteResult c now request (Usage.sum stopped.2.session.usage) result log).1 with
      | error f =>
        rw [hnoted] at h
        cases h
      | ok _ =>
        rw [hnoted] at h
        exact h

theorem reached_ok {s : Session σ} {r : Compiled}
    (h : ((compile w c now request tenant deadline).run s).1 = .ok r) :
    reached w c now request tenant deadline s = .ok r := by
  rw [compile_run] at h
  exact conclude_ok c now request h

theorem conclude_clock (stopped : Except Failure Compiled × Compiling σ) (s : Session σ) :
    ((conclude c now request stopped).run s).2.clock = stopped.2.session.clock := by
  rw [conclude_run]
  split
  · rfl
  · split <;> rfl

theorem conclude_projects {τ : Type} {part : τ → σ} (stopped : Except Failure Compiled × Compiling τ) :
    Projects (Session.onPart part) (conclude c now request stopped)
      (conclude c now request (stopped.1, stopped.2.onPart part)) := by
  intro s
  rw [conclude_run, conclude_run]
  dsimp only [Compiling.onPart, Session.onPart]
  cases ended stopped.2.compilation stopped.1 with
  | error f => rfl
  | ok result =>
    dsimp only
    cases stopped.2.session.log.map (noteResult c now request (Usage.sum stopped.2.session.usage) result) <;> rfl

/-- With collaborators that keep more in their state and otherwise do the same, so does a compilation. -/
theorem compile_projects {τ : Type} {w' : World τ} {part : τ → σ} (h : w'.Refines part w) :
    Projects (Session.onPart part) (compile w' c now request tenant deadline)
      (compile w c now request tenant deadline) := by
  intro s
  have hsteps : Follows part (steps w' c now request tenant (deadlineOf c deadline s))
      (steps w c now request tenant (deadlineOf c deadline s)) := h.steps now
  have hconclude : Projects (Session.onPart part) _ _ := conclude_projects c now request
    ((steps w' c now request tenant (deadlineOf c deadline s)).run.run
      { session := begun s, compilation := { request } })
  have hbegun := hconclude (begun s)
  rw [hsteps.run] at hbegun
  exact hbegun

/-- What is known in the end does not depend on what else collaborators keep in their state. -/
theorem atEnd_projects {τ : Type} {w' : World τ} {part : τ → σ} (h : w'.Refines part w) (s : Session τ) :
    atEnd w' c now request tenant deadline s = atEnd w c now request tenant deadline (s.onPart part) := by
  have hsteps : Follows part (steps w' c now request tenant (deadlineOf c deadline s))
      (steps w c now request tenant (deadlineOf c deadline s)) := h.steps now
  have hrun := hsteps.run { session := begun s, compilation := { request } }
  exact congrArg (fun stopped => stopped.2.compilation) hrun

/-- Whatever collaborators answer, fail at or are silent on, a compilation that comes to a result
delivers what it should. -/
theorem compile_delivered (hmax : 0 ≤ c.maxRegenerations) (hpasses : 0 ≤ c.bounds.maxPasses)
    {s : Session σ} {r : Compiled}
    (h : ((compile w c now request tenant deadline).run s).1 = .ok r) :
    ∃ s', (compile w.counted c now request tenant deadline).run (s.counting 0) = (.ok r, s') ∧
      s'.plain = ((compile w c now request tenant deadline).run s).2 ∧
      Delivered c r (atEnd w c now request tenant deadline s) s'.asked := by
  have hprojects := compile_projects w c now request tenant deadline w.counted_refines (s.counting 0)
  have hfst : ((compile w.counted c now request tenant deadline).run (s.counting 0)).1 = .ok r :=
    (congrArg Prod.fst hprojects).trans h
  refine ⟨_, Prod.ext hfst rfl, congrArg Prod.snd hprojects, ?_⟩
  have hend : atEnd w.counted c now request tenant deadline (s.counting 0) =
      atEnd w c now request tenant deadline s :=
    atEnd_projects w c now request tenant deadline w.counted_refines (s.counting 0)
  rw [← hend]
  -- The steps are run with the count, from a session in which nothing was asked.
  have hsteps : LeftAs (Delivered c) (Halted c)
      ((steps w.counted c now request tenant (deadlineOf c deadline (s.counting 0))).run.run
        { session := begun (s.counting 0), compilation := { request } }) :=
    (steps_ensures hmax hpasses now).run _ (AtDraft.start c request)
  rw [compile_run] at hfst
  replace hfst := conclude_ok c now request hfst
  rw [Session.asked, compile_run, conclude_clock]
  unfold atEnd
  cases hrun : (steps w.counted c now request tenant (deadlineOf c deadline (s.counting 0))).run.run
      { session := begun (s.counting 0), compilation := { request } } with
  | mk result reached =>
    rw [hrun] at hsteps hfst
    cases result with
    | ok r' =>
      cases hfst
      exact hsteps
    | error f => exact hsteps.ended hmax hfst

def misspelling : Rehearsal where
  graph := SchemaGraph.loadObject [] none { name := "Account", fields := [{ name := "Id" }, { name := "Name" }] }
  plan := .answered "\x7b\"summary\": \"all\", \"relevant_tables\": [\"Account\"]\x7d"
  drafts := [.answered "SELECT FROM", .answered "SELECT Nam FROM Account"]

theorem compile_delivered_misspelt :
    ((compile Rehearsal.world {} default "all" none none).run { clock := { state := misspelling } }).1.map
        (fun r => (r.status, r.query, r.corrections)) =
      .ok (.valid, some "SELECT Name FROM Account LIMIT 1000",
        ["Field \"Nam\" replaced with \"Name\"", "Applied LIMIT 1000"]) ∧
    ∃ r s', (compile Rehearsal.world.counted {} default "all" none none).run
        (Session.counting 0 { clock := { state := misspelling } }) = (.ok r, s') ∧
      r.status = .valid ∧
      Delivered {} r (atEnd Rehearsal.world {} default "all" none none { clock := { state := misspelling } })
        s'.asked := by
  have hrun : ((compile Rehearsal.world {} default "all" none none).run
        { clock := { state := misspelling } }).1.map (fun r => (r.status, r.query, r.corrections)) =
      .ok (.valid, some "SELECT Name FROM Account LIMIT 1000",
        ["Field \"Nam\" replaced with \"Name\"", "Applied LIMIT 1000"]) := by decide +kernel
  refine ⟨hrun, ?_⟩
  cases hr : ((compile Rehearsal.world {} default "all" none none).run
      { clock := { state := misspelling } }).1 with
  | error f =>
    rw [hr] at hrun
    cases hrun
  | ok r =>
    rw [hr] at hrun
    have hstatus : r.status = .valid := congrArg (fun shown => (shown.toOption.map (·.1)).getD .failed) hrun
    obtain ⟨s', hcounted, -, hdelivered⟩ := compile_delivered Rehearsal.world {} default "all" none none
      (by decide) (by decide) hr
    exact ⟨r, s', hcounted, hstatus, hdelivered⟩

end Compiler

end Soql
