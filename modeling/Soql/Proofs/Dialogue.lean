import Soql.Proofs.Projection
import Soql.World

namespace Soql

variable {α β σ : Type}

/-- What the work comes to has a property, and so has each failure of it, however its questions are
answered. -/
inductive Dialogue.Only (P : α → Prop) (F : Failure → Prop) : Dialogue α → Prop
  | done {a : α} (h : P a) : Only P F (.done a)
  | failed {f : Failure} (h : F f) : Only P F (.failed f)
  | ask {q : Question} {next : q.Answer → Dialogue α} (h : ∀ answer, Only P F (next answer)) :
    Only P F (.ask q next)

/-- What an ending came to has a property, and so has its failure. -/
def Ending.Only (P : α → Prop) (F : Failure → Prop) : Ending α → Prop
  | .done a => P a
  | .failed f => F f
  | .expired => True

theorem Ending.Only.weaken {P P' : α → Prop} {F F' : Failure → Prop} {ending : Ending α} (h : ending.Only P F)
    (hP : ∀ a, P a → P' a) (hF : ∀ f, F f → F' f) : ending.Only P' F' := by
  cases ending with
  | done a => exact hP a h
  | failed f => exact hF f h
  | expired => trivial

def Ending.result? : Ending α → Option α
  | .done a => some a
  | .failed _ | .expired => none

theorem Ending.eq_done {ending : Ending α} {a : α} (h : ending.result? = some a) : ending = .done a := by
  cases ending with
  | done b => exact congrArg done (Option.some.inj h)
  | failed f => cases h
  | expired => cases h

namespace Dialogue

variable {P : α → Prop} {Q : β → Prop} {F : Failure → Prop}

theorem Only.bind {d : Dialogue α} {next : α → Dialogue β} (h : d.Only P F)
    (hnext : ∀ a, P a → (next a).Only Q F) : (d.bind next).Only Q F := by
  induction h with
  | done h => exact hnext _ h
  | failed h => exact .failed h
  | ask _ ih => exact .ask ih

theorem Only.weaken {P' : α → Prop} {F' : Failure → Prop} {d : Dialogue α} (h : d.Only P F)
    (hP : ∀ a, P a → P' a) (hF : ∀ f, F f → F' f) : d.Only P' F' := by
  induction h with
  | done h => exact .done (hP _ h)
  | failed h => exact .failed (hF _ h)
  | ask _ ih => exact .ask ih

/-- A question comes to what its answer leads to, unless the time is over before it. -/
theorem run_ask_cases {q : Question} (next : q.Answer → Dialogue α) (w : World σ) (expires : Option Float)
    (x : Clocked σ) :
    (∃ now, ((ask q next).run w expires).run x = (.expired, ⟨now, ((w.answer q).run x.state).2⟩)) ∨
      ∃ seconds a now, ((w.answer q).run x.state).1 = .after seconds a ∧
        ((ask q next).run w expires).run x =
          ((next a).run w expires).run ⟨now, ((w.answer q).run x.state).2⟩ := by
  have hresponse : ((Clocked.within (w.answer q)).run x).1 = ((w.answer q).run x.state).1 := rfl
  rw [Dialogue.run, run_bind, hresponse]
  cases hanswer : ((w.answer q).run x.state).1 with
  | never => exact .inl ⟨_, rfl⟩
  | after seconds a =>
    simp only
    rw [run_bind]
    split
    · exact .inl ⟨_, rfl⟩
    · exact .inr ⟨seconds, a, _, rfl, rfl⟩

theorem run_ask_only {q : Question} {next : q.Answer → Dialogue α} {w : World σ} {expires : Option Float}
    {x : Clocked σ}
    (h : ∀ seconds a, ((w.answer q).run x.state).1 = .after seconds a →
      ∀ y, Ending.Only P F (((next a).run w expires).run y).1) :
    Ending.Only P F (((ask q next).run w expires).run x).1 := by
  rcases run_ask_cases next w expires x with ⟨now, hrun⟩ | ⟨seconds, a, now, ha, hrun⟩
  · rw [hrun]
    trivial
  · rw [hrun]
    exact h seconds a ha _

theorem Only.run {d : Dialogue α} (h : d.Only P F) (w : World σ) (expires : Option Float) (x : Clocked σ) :
    Ending.Only P F ((d.run w expires).run x).1 := by
  induction h generalizing x with
  | done h => exact h
  | failed h => exact h
  | ask _ ih => exact run_ask_only fun _ a _ y => ih a y

end Dialogue

end Soql
