import Soql.Proofs.Compilation.Runs
import Soql.Proofs.Provider.Usage

/-!
The usage that a compilation hands to its log. The completions are made by workers, which note what
their calls are reported to take in logs of their own; the compilation reads another log, where nothing
is noted.
-/

namespace Soql.Compiler

variable {σ τ : Type}

variable (c : Compiler) (now : Moment) (request : String) (tenant : Tenant) (deadline : Option Float)

/-- A compilation that comes to a result has noted all of it, if it has a log. -/
theorem noteResult_of_conclude {stopped : Except Failure Compiled × Compiling σ} {s : Session σ} {r : Compiled}
    (h : ((conclude c now request stopped).run s).1 = .ok r) {log : RunLog}
    (hlog : stopped.2.session.log = some log) :
    (noteResult c now request (Usage.sum stopped.2.session.usage) r log).1 = .ok () := by
  have hended := conclude_ok c now request h
  rw [conclude_run, hended, hlog] at h
  change Except.map _ (noteResult c now request _ r log).1 = _ at h
  cases hnoted : (noteResult c now request (Usage.sum stopped.2.session.usage) r log).1 with
  | error f =>
    rw [hnoted] at h
    cases h
  | ok _ => rfl

/-- In the folder of the run a result leaves the usage that is handed to the log. -/
theorem find?_usage_compile (w : World σ) {s : Session σ} {r : Compiled} {log : RunLog} {folder : RunFolder}
    (hr : ((compile w c now request tenant deadline).run s).1 = .ok r)
    (hlog : ((compile w c now request tenant deadline).run s).2.log = some log) (hfolder : folder ∈ log.folders)
    (hcurrent : log.current = some folder.id) :
    Table.find? "usage.json" folder.files = some (Json.record
      [("usage", (handed w c now request tenant deadline s).toJson), ("logged_at", .text now.text)]).indented := by
  rw [compile_run] at hr hlog
  rw [conclude_session, conclude_ok c now request hr] at hlog
  obtain ⟨before, hbefore, rfl⟩ := Option.map_eq_some_iff.mp hlog
  have hnoted := noteResult_of_conclude c now request hr hbefore
  rw [settled_current] at hcurrent
  exact find?_usage_noteResult c now request _ r hnoted hfolder hcurrent

/-- The workers of a compilation note exactly what its calls are reported to take, and what is handed to
the log is nought all the same: it is right for just those compilations whose calls took nothing. -/
theorem compile_usage (w : World σ) (p : Provider τ) (m : Models) (pick : Staffed σ τ → Nat)
    (s : Session (Staffed σ τ)) :
    let run := (compile (w.withWorkers p m pick) c now request tenant deadline).run s
    let handed := handed (w.withWorkers p m pick) c now request tenant deadline s
    (run.1, run.2.onPart Staffed.plain) =
        (compile (w.withProvider p m) c now request tenant deadline).run (s.onPart Staffed.plain) ∧
      run.2.log = (opened now request tenant s.log
        (assembled (w.withWorkers p m pick) c request tenant deadline s)).map
          (settled c now request handed · (reached (w.withWorkers p m pick) c now request tenant deadline s)) ∧
      (∀ r, run.1 = .ok r → reached (w.withWorkers p m pick) c now request tenant deadline s = .ok r) ∧
      (∀ r log folder, run.1 = .ok r → run.2.log = some log → folder ∈ log.folders →
        log.current = some folder.id → Table.find? "usage.json" folder.files =
          some (Json.record [("usage", handed.toJson), ("logged_at", .text now.text)]).indented) ∧
      ∃ calls noted, run.2.clock.state.calls = s.clock.state.calls ++ calls ∧
        run.2.clock.state.noted = s.clock.state.noted ++ noted ∧
        Usage.sum (noted.map (·.2)) = Usage.sum (calls.map (·.usage)) ∧
        handed = {} ∧
        (handed = Usage.sum (calls.map (·.usage)) ↔ Usage.sum (calls.map (·.usage)) = {}) := by
  intro run handed
  -- Whatever the workers note in theirs, nothing is noted in the log that is read.
  have hnought : handed = {} := handed_eq (w.withWorkers p m pick) c now request tenant deadline s
  obtain ⟨⟨calls, noted, hcalls, hnoted, hsum⟩, hlog⟩ :=
    compile_ahead (w.withWorkers_advances p m pick) c now request tenant deadline s
  have hfiled : ∀ r log folder, run.1 = .ok r → run.2.log = some log → folder ∈ log.folders →
      log.current = some folder.id → Table.find? "usage.json" folder.files =
        some (Json.record [("usage", handed.toJson), ("logged_at", .text now.text)]).indented := by
    intro r log folder hr hsome
    exact find?_usage_compile c now request tenant deadline (w.withWorkers p m pick) hr hsome
  refine ⟨compile_projects (w.withProvider p m) c now request tenant deadline
    (w.withWorkers_refines p m pick) s, hlog, ?_, hfiled, calls, noted, hcalls, hnoted, hsum, hnought, ?_⟩
  · exact fun r => reached_ok (w.withWorkers p m pick) c now request tenant deadline
  rw [hnought, eq_comm]

def reporting : Provider Unit where
  chat _ := return .ok {
    content := some "hi"
    usage := some (.record [("prompt_tokens", .int 7), ("completion_tokens", .int 3), ("total_tokens", .int 10)]) }
  embed _ _ := return .ok []

/-- One completion is asked for, which takes ten tokens, and the log is told of none. -/
theorem compile_usage_unheard :
    let w := Rehearsal.world.withWorkers reporting {} fun _ => 1
    let s : Session (Staffed Rehearsal Unit) :=
      { clock := { state := { world := {}, provider := () } }, log := some {} }
    let run := (compile w {} ⟨100, "first"⟩ "accounts" none none).run s
    Usage.sum (run.2.clock.state.calls.map (·.usage)) = ⟨7, 3, 10⟩ ∧
      run.2.clock.state.noted = [(1, ⟨7, 3, 10⟩)] ∧
      handed w {} ⟨100, "first"⟩ "accounts" none none s = ⟨0, 0, 0⟩ ∧
      filed run.2 "usage.json" = [(0, some
        "\x7b\n  \"usage\": \x7b\n    \"prompt_tokens\": 0,\n    \"completion_tokens\": 0,\n    \"total_tokens\": 0\n  \x7d,\n  \"logged_at\": \"first\"\n\x7d")] := by
  decide +kernel

end Soql.Compiler
