import Soql.Proofs.Compilation.Moves
import Soql.Proofs.Provider.Calls

namespace Soql

variable {σ τ α β : Type}

namespace Usage

theorem zero_add (a : Usage) : ({} : Usage).add a = a := by
  simp [add]

theorem add_zero (a : Usage) : a.add {} = a := by
  simp [add]

theorem add_assoc (a b c : Usage) : (a.add b).add c = a.add (b.add c) := by
  simp [add, Int.add_assoc]

theorem foldl_add (start : Usage) (usages : List Usage) :
    usages.foldl add start = start.add (sum usages) := by
  induction usages generalizing start with
  | nil => exact (add_zero start).symm
  | cons usage usages ih =>
    have hsum : sum (usage :: usages) = usage.add (sum usages) := by
      rw [sum, List.foldl_cons, ih, zero_add]
    rw [List.foldl_cons, ih, add_assoc, hsum]

theorem sum_append (usages more : List Usage) : sum (usages ++ more) = (sum usages).add (sum more) := by
  rw [sum, List.foldl_append, foldl_add]
  rfl

theorem sum_singleton (usage : Usage) : sum [usage] = usage :=
  zero_add usage

theorem sum_toList (usage : Option Usage) : sum usage.toList = usage.getD {} := by
  cases usage with
  | none => rfl
  | some usage => exact sum_singleton usage

end Usage

/-- The usage that a completion is known to have taken, which is nought if it failed or nothing was
reported. -/
def Completion.taken (result : Except Failure Completion) : Usage :=
  (result.toOption.bind (·.usage)).getD {}

def ChatReply.usageOf (answer : Except Failure ChatReply) : Usage :=
  Completion.taken (answer.bind Completion.ofReply)

def ChatCall.usage (call : ChatCall) : Usage :=
  ChatReply.usageOf call.answer

/-- Together with what was taken before, the calls that a program makes report what its result took. -/
def CallsReport (before : Usage) (taken : α → Usage) (work : StateM (σ × List ChatCall) α) : Prop :=
  ∀ x, ∃ calls, (work.run x).2.2 = x.2 ++ calls ∧
    before.add (Usage.sum (calls.map (·.usage))) = taken (work.run x).1

namespace CallsReport

variable {before : Usage} {taken : α → Usage}

theorem pure {a : α} (h : before = taken a) :
    CallsReport before taken (Pure.pure a : StateM (σ × List ChatCall) α) :=
  fun x => ⟨[], (List.append_nil x.2).symm, (Usage.add_zero before).trans h⟩

theorem bind {taken' : β → Usage} {r : StateM (σ × List ChatCall) α}
    {f : α → StateM (σ × List ChatCall) β} (h : CallsReport before taken r)
    (hf : ∀ a, CallsReport (taken a) taken' (f a)) : CallsReport before taken' (r >>= f) := by
  intro x
  obtain ⟨calls, hcalls, hbefore⟩ := h x
  obtain ⟨more, hmore, hafter⟩ := hf (r.run x).1 (r.run x).2
  refine ⟨calls ++ more, ?_, ?_⟩
  · rw [run_bind, hmore, hcalls, List.append_assoc]
  · rw [List.map_append, Usage.sum_append, ← Usage.add_assoc, hbefore, hafter]
    rfl

theorem chat (p : Provider σ) (request : ChatRequest) :
    CallsReport {} ChatReply.usageOf (p.recorded.chat request) := by
  intro x
  refine ⟨[⟨request, ((p.chat request).run x.1).1⟩], rfl, ?_⟩
  rw [Usage.zero_add]
  exact Usage.sum_singleton _

theorem chatAdjusting (p : Provider σ) (request : ChatRequest) :
    CallsReport {} ChatReply.usageOf (p.recorded.chatAdjusting request) := by
  apply (chat p request).bind
  intro answer
  split
  -- A rejection reports nothing.
  · split
    · exact pure rfl
    · apply (chat p _).bind
      intro answer
      apply pure
      cases answer <;> rfl
  · exact pure rfl

theorem retried {call : StateM (σ × List ChatCall) (Except Failure Completion)}
    (h : CallsReport {} Completion.taken call) (more : Nat) :
    CallsReport {} Completion.taken (Provider.retried call more) := by
  induction more with
  | zero => exact h
  | succ more ih =>
    apply h.bind
    intro result
    cases result with
    | ok c => exact pure rfl
    | error f => exact ih

/-- However often the models are called, the calls report what the completion took. -/
theorem complete (p : Provider σ) (request : ChatRequest) :
    CallsReport {} Completion.taken (p.recorded.complete request) :=
  retried ((chatAdjusting p _).bind fun _ => pure rfl) _

end CallsReport

namespace Staffed

def Noting (x y : Staffed σ τ) : Prop :=
  ∃ calls noted, y.calls = x.calls ++ calls ∧ y.noted = x.noted ++ noted ∧
    Usage.sum (noted.map (·.2)) = Usage.sum (calls.map (·.usage))

theorem noting_of_eq {x y : Staffed σ τ} (hcalls : y.calls = x.calls) (hnoted : y.noted = x.noted) :
    Noting x y :=
  ⟨[], [], hcalls.trans (List.append_nil _).symm, hnoted.trans (List.append_nil _).symm, rfl⟩

theorem noting_onward : Onward (Noting : Staffed σ τ → Staffed σ τ → Prop) where
  refl _ := noting_of_eq rfl rfl
  trans := by
    rintro x y z ⟨calls, noted, hcalls, hnoted, hsum⟩ ⟨calls', noted', hcalls', hnoted', hsum'⟩
    refine ⟨calls ++ calls', noted ++ noted', ?_, ?_, ?_⟩
    · rw [hcalls', hcalls, List.append_assoc]
    · rw [hnoted', hnoted, List.append_assoc]
    · rw [List.map_append, List.map_append, Usage.sum_append, Usage.sum_append, hsum, hsum']

theorem inWorker_notes (p : Provider τ) (worker : Nat) (request : ChatRequest) :
    Moves Noting (inWorker p worker request : StateM (Staffed σ τ) _) := by
  intro x
  obtain ⟨calls, hcalls, hsum⟩ := CallsReport.complete p request (x.provider, x.calls)
  refine ⟨calls, _, hcalls, rfl, ?_⟩
  rw [Usage.zero_add] at hsum
  rw [hsum, List.map_map, Completion.taken, ← Usage.sum_toList]
  exact congrArg Usage.sum (List.map_id _)

end Staffed

namespace World

open Staffed

variable (w : World σ) (p : Provider τ) (m : Models) (pick : Staffed σ τ → Nat)

/-- That workers make the completions, and note what they took, changes nothing else. -/
theorem withWorkers_refines : (w.withWorkers p m pick).Refines plain (w.withProvider p m) where
  catalog _ _ := rfl
  detail _ _ _ := rfl
  vectors _ _ _ := rfl
  search _ _ _ := rfl
  embed _ _ := rfl
  complete role prompt := by
    intro x
    have hprojects := p.recorded_complete_projects (m.request role prompt) (x.provider, x.calls)
    have hrun : ((w.withProvider p m).complete role prompt).run (plain x) =
        (.ofExcept (((p.complete (m.request role prompt)).run x.provider).1.map (·.text)),
          (x.world, ((p.complete (m.request role prompt)).run x.provider).2)) := rfl
    rw [hrun, ← hprojects]
    rfl

theorem withWorkers_advances : (w.withWorkers p m pick).Advances Noting where
  onward := noting_onward
  catalog _ _ := noting_of_eq rfl rfl
  detail _ _ _ := noting_of_eq rfl rfl
  vectors _ _ _ := noting_of_eq rfl rfl
  search _ _ _ := noting_of_eq rfl rfl
  embed _ _ := noting_of_eq rfl rfl
  complete role prompt x := inWorker_notes p (pick x) (m.request role prompt) x

end World

end Soql
