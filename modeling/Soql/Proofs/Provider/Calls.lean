import Soql.Proofs.Projection
import Soql.Provider.Workers

namespace Soql

variable {σ α : Type}

namespace Provider

section

variable {call : StateM σ (Except Failure α)} {s : σ}

theorem retried_of_ok {a : α} (more : Nat) (h : (call.run s).1 = .ok a) :
    (retried call more).run s = call.run s := by
  cases more with
  | zero => rfl
  | succ more =>
    rw [retried, run_bind, h]
    exact Prod.ext h.symm rfl

theorem retried_of_error {f : Failure} (more : Nat) (h : (call.run s).1 = .error f) :
    (retried call (more + 1)).run s = (retried call more).run (call.run s).2 := by
  rw [retried, run_bind, h]

theorem retried_projects {τ : Type} {part : τ → σ} {call' : StateM τ (Except Failure α)}
    (h : Projects part call' call) (more : Nat) :
    Projects part (retried call' more) (retried call more) := by
  induction more with
  | zero => exact h
  | succ more ih =>
    apply h.bind
    intro result
    cases result with
    | ok a => exact Projects.pure _
    | error f => exact ih

theorem retried_adds {measure : σ → Nat} {n : Nat} (h : Adds measure n call) (more : Nat) :
    Adds measure (n * (more + 1)) (retried call more) := by
  induction more with
  | zero => exact (Nat.mul_one n).symm ▸ h
  | succ more ih =>
    rw [Nat.mul_add_one, Nat.add_comm]
    apply h.bind
    intro result
    cases result with
    | ok a => exact fun s => Nat.le_add_right _ _
    | error f => exact ih

end

variable (p : Provider σ)

theorem recorded_chat {p : Provider σ} {request : ChatRequest} {s s' : σ}
    {answer : Except Failure ChatReply} (h : (p.chat request).run s = (answer, s'))
    (calls : List ChatCall) :
    (p.recorded.chat request).run (s, calls) = (answer, (s', calls ++ [⟨request, answer⟩])) := by
  rw [← (Prod.mk.inj h).1, ← (Prod.mk.inj h).2]
  rfl

theorem recorded_chat_projects (request : ChatRequest) :
    Projects Prod.fst (p.recorded.chat request) (p.chat request) :=
  fun _ => rfl

theorem recorded_chat_adds (request : ChatRequest) :
    Adds (fun x : σ × List ChatCall => x.2.length) 1 (p.recorded.chat request) := by
  intro x
  exact Nat.le_of_eq List.length_append

theorem recorded_chatAdjusting_projects (request : ChatRequest) :
    Projects Prod.fst (p.recorded.chatAdjusting request) (p.chatAdjusting request) := by
  apply (p.recorded_chat_projects request).bind
  intro answer
  split
  · split
    · exact Projects.pure _
    · exact (p.recorded_chat_projects _).bind fun _ => Projects.pure _
  · exact Projects.pure _

theorem recorded_chatAdjusting_adds (request : ChatRequest) :
    Adds (fun x : σ × List ChatCall => x.2.length) 2 (p.recorded.chatAdjusting request) := by
  apply (p.recorded_chat_adds request).bind (m := 1)
  intro answer
  split
  · split
    · exact fun x => Nat.le_add_right _ _
    · exact (p.recorded_chat_adds _).bind (m := 0) fun _ => Adds.pure _
  · exact fun x => Nat.le_add_right _ _

def attempt (request : ChatRequest) : StateM σ (Except Failure Completion) := do
  return (← p.chatAdjusting request.initial).bind Completion.ofReply

theorem complete_eq (request : ChatRequest) :
    p.complete request = retried (p.attempt request) 2 :=
  rfl

theorem recorded_complete_projects (request : ChatRequest) :
    Projects Prod.fst (p.recorded.complete request) (p.complete request) :=
  retried_projects ((p.recorded_chatAdjusting_projects _).bind fun _ => Projects.pure _) _

/-- However models answer, one completion takes six calls at most. -/
theorem recorded_complete_adds (request : ChatRequest) :
    Adds (fun x : σ × List ChatCall => x.2.length) 6 (p.recorded.complete request) :=
  retried_adds ((p.recorded_chatAdjusting_adds _).bind (m := 0) fun _ => Adds.pure _) 2

end Provider

end Soql
