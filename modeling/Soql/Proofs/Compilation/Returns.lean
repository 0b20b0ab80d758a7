import Soql.Proofs.Compilation.Folders
import Soql.Proofs.Compilation.Moves
import Soql.Proofs.Compilation.Result
import Soql.Proofs.Compilation.Stops
import Soql.Proofs.Grounding.Unread

namespace Soql

open Text

variable {σ : Type}

namespace Compiler

variable {w : World σ} {c : Compiler} {now : Moment} {request : String} {tenant : Tenant} {deadline : Option Float}

/-- Noting a result fails only where the report on it cannot be written. -/
theorem noteResult_error {usage : Usage} {result : Compiled} {log : RunLog} {f : Failure}
    (h : (noteResult c now request usage result log).1 = .error f) :
    (c.report request result).all isWhole = false ∧ f = .halved := by
  rw [noteResult_eq] at h
  split at h
  · cases h
  · dsimp only at h
    split at h
    · cases h
    · rename_i hhalved
      exact ⟨Bool.eq_false_iff.mpr hhalved, (Except.error.inj h).symm⟩

theorem conclude_error {stopped : Except Failure Compiled × Compiling σ} {s : Session σ} {f : Failure}
    (h : ((conclude c now request stopped).run s).1 = .error f) :
    ended stopped.2.compilation stopped.1 = .error f ∨
      ∃ r, ended stopped.2.compilation stopped.1 = .ok r ∧ (c.report request r).all isWhole = false ∧
        f = .halved := by
  rw [conclude_run] at h
  cases hended : ended stopped.2.compilation stopped.1 with
  | error g =>
    rw [hended] at h
    exact .inl (congrArg Except.error (Except.error.inj h))
  | ok r =>
    refine .inr ⟨r, rfl, ?_⟩
    -- With a result at hand, only its report can fail.
    rw [hended] at h
    cases hlog : stopped.2.session.log with
    | none =>
      rw [hlog] at h
      cases h
    | some log =>
      rw [hlog] at h
      change Except.map _ (noteResult c now request _ r log).1 = _ at h
      cases hnoted : (noteResult c now request (Usage.sum stopped.2.session.usage) r log).1 with
      | error g =>
        rw [hnoted] at h
        cases h
        exact noteResult_error hnoted
      | ok _ =>
        rw [hnoted] at h
        cases h

/-- Failures of collaborators and of time are results; others are not changed. -/
theorem ended_error {sofar : Compilation} {stopped : Except Failure Compiled} {f : Failure}
    (h : ended sofar stopped = .error f) :
    stopped = .error f ∧ (∀ reason, f ≠ .late reason) ∧
      ∀ capability reason, f ≠ .unreachable capability reason := by
  unfold ended at h
  split at h
  case h_4 hlate hunreachable =>
    cases h
    refine ⟨rfl, ?_, ?_⟩
    · rintro reason rfl
      exact hlate reason rfl
    · rintro capability reason rfl
      exact hunreachable capability reason rfl
  all_goals cases h

/-- What keeps a compilation from a result: a value of the request that is an amount without a number or has a
number beyond all others, a draft that cannot be read or corrected, or a report that cannot be written. No
failure of a collaborator does, and no want of time. -/
theorem compile_error {s : Session σ} {f : Failure}
    (h : ((compile w c now request tenant deadline).run s).1 = .error f) :
    (∃ v ∈ (Request.terms request).values, Recognition.of v = .error f ∧
        (f = .infinite ∨ f = .notANumber ∧ Recognition.Unpriced (trim v.toList))) ∨
      (∃ prompt x reply, ((w.complete .code prompt).run x).1 = .answered reply ∧
        (Query.parse (Draft.ofReply reply []).query = .error .countTooLong ∧ f = .notANumber ∨
          ∃ q context, Query.parse (Draft.ofReply reply []).query = .ok q ∧ c.repaired q context = .error f)) ∨
      ∃ r, reached w c now request tenant deadline s = .ok r ∧ (c.report request r).all isWhole = false ∧
        f = .halved := by
  have hsteps : Halts (fun _ => True) (Stopped w c request)
      ((steps w c now request tenant (deadlineOf c deadline s)).run.run
        { session := begun s, compilation := { request } }).1 := (steps_gives now).run _
  rw [compile_run] at h
  rcases conclude_error h with hended | ⟨r, hended, hhalved⟩
  · obtain ⟨hstopped, hlate, hunreachable⟩ := ended_error hended
    rw [hstopped] at hsteps
    -- What stopped the steps is neither a collaborator nor the time.
    cases (hsteps : Stopped w c request f) with
    | late reason => exact absurd rfl (hlate reason)
    | unassembled hf =>
      cases hf with
      | unreached capability reason => exact absurd rfl (hunreachable capability reason)
      | unread mentioned unreadable => exact .inl ⟨_, mentioned, unreadable, Recognition.of_error unreadable⟩
    | uncountable replied tooLong => exact .inr (.inl ⟨_, _, _, replied, .inl ⟨tooLong, rfl⟩⟩)
    | uncorrected replied parsed failed => exact .inr (.inl ⟨_, _, _, replied, .inr ⟨_, _, parsed, failed⟩⟩)
  · exact .inr (.inr ⟨r, hended, hhalved⟩)

end Compiler

end Soql
