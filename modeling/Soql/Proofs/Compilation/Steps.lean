import Soql.Proofs.Compilation.Asking

namespace Soql

variable {σ α β : Type}

def Session.asked (s : Session (σ × Nat)) : Nat :=
  s.clock.asked

abbrev Known := Compilation → Nat → Prop

def Known.after (k : Nat) (P : Known) : Known :=
  fun x n => ∃ m, P x m ∧ n ≤ m + k

/-- What is known after a step: about its result, or else where it stopped the compilation. -/
def LeftAs (Q : α → Known) (E : Known) : Except Failure α × Compiling (σ × Nat) → Prop
  | (.ok a, s) => Q a s.compilation s.session.asked
  | (.error _, s) => E s.compilation s.session.asked

/-- Where something is known, a step that goes on makes something known about its result, and one
that stops the compilation leaves something else. -/
structure Ensures (P : Known) (m : CompileM (σ × Nat) α) (Q : α → Known) (E : Known) : Prop where
  run : ∀ s : Compiling (σ × Nat), P s.compilation s.session.asked → LeftAs Q E (m.run.run s)

namespace Ensures

open CompileM

variable {P P' E : Known} {Q : α → Known}

theorem pure {a : α} (h : ∀ x n, P x n → Q a x n) :
    Ensures P (Pure.pure a : CompileM (σ × Nat) α) Q E :=
  ⟨fun _ hs => h _ _ hs⟩

theorem throw {f : Failure} (h : ∀ x n, P x n → E x n) :
    Ensures P (MonadExcept.throw f : CompileM (σ × Nat) α) Q E :=
  ⟨fun _ hs => h _ _ hs⟩

theorem before {m : CompileM (σ × Nat) α} (h : Ensures P m Q E) (hP : ∀ x n, P' x n → P x n) :
    Ensures P' m Q E :=
  ⟨fun s hs => h.run s (hP _ _ hs)⟩

theorem weaken {m : CompileM (σ × Nat) α} {R : α → Known} (h : Ensures P m Q E)
    (hQ : ∀ a x n, Q a x n → R a x n) : Ensures P m R E := by
  constructor
  intro s hs
  have hm := h.run s hs
  cases hrun : m.run.run s with
  | mk result s' =>
    rw [hrun] at hm
    cases result with
    | ok a => exact hQ a _ _ hm
    | error f => exact hm

theorem bind {m : CompileM (σ × Nat) α} {f : α → CompileM (σ × Nat) β} {R : β → Known}
    (h : Ensures P m Q E) (hf : ∀ a, Ensures (Q a) (f a) R E) : Ensures P (m >>= f) R E := by
  constructor
  intro s hs
  have hm := h.run s hs
  change LeftAs R E ((ExceptT.bindCont f (m.run.run s).1).run (m.run.run s).2)
  cases hrun : m.run.run s with
  | mk result s' =>
    rw [hrun] at hm
    cases result with
    | ok a => exact (hf a).run s' hm
    | error f => exact hm

theorem known : Ensures P (known : CompileM (σ × Nat) Compilation) (fun y x n => y = x ∧ P x n) E :=
  ⟨fun _ hs => ⟨rfl, hs⟩⟩

theorem change {f : Compilation → Compilation} {Q : Unit → Known} (h : ∀ x n, P x n → Q () (f x) n) :
    Ensures P (change f : CompileM (σ × Nat) Unit) Q E :=
  ⟨fun _ hs => h _ _ hs⟩

/-- A change, and what follows it. -/
theorem change_bind {f : Compilation → Compilation} {next : Unit → CompileM (σ × Nat) β}
    {R : β → Known} {Q : Known} (h : ∀ x n, P x n → Q (f x) n) (hnext : Ensures Q (next ()) R E) :
    Ensures P (CompileM.change f >>= next) R E :=
  bind (change h) fun _ => hnext

/-- A look at what is known, and what follows it. -/
theorem known_bind {next : Compilation → CompileM (σ × Nat) β} {R : β → Known}
    (hnext : ∀ x, Ensures (fun y n => y = x ∧ P y n) (next x) R E) :
    Ensures P (CompileM.known >>= next) R E := by
  apply bind known
  intro x
  apply (hnext x).before
  rintro y n ⟨rfl, h⟩
  exact ⟨rfl, h⟩

theorem inSession {k : Nat} {work : StateM (Session (σ × Nat)) α} (hwork : Adds Session.asked k work) :
    Ensures P (inSession work) (fun _ => P.after k) E :=
  ⟨fun s hs => ⟨_, hs, hwork s.session⟩⟩

theorem ite {c : Prop} [Decidable c] {m m' : CompileM (σ × Nat) α} (h : c → Ensures P m Q E)
    (h' : ¬c → Ensures P m' Q E) : Ensures P (if c then m else m') Q E := by
  split
  · exact h ‹_›
  · exact h' ‹_›

end Ensures

theorem onClock_adds {k : Nat} {work : StateM (Clocked (σ × Nat)) α}
    (h : Adds Clocked.asked k work) : Adds Session.asked k (Session.onClock work) :=
  fun s => h s.clock

theorem onCache_adds {k : Nat} {work : Keeping (σ × Nat) α}
    (h : ∀ cache, Adds Clocked.asked k (work.run cache)) : Adds Session.asked k (Session.onCache work) :=
  fun s => h s.cache s.clock

/-- Where a step stops the compilation, the one that follows is not taken. -/
theorem run_bind_error {m : CompileM σ α} {f : α → CompileM σ β} {s s' : Compiling σ} {e : Failure}
    (h : m.run.run s = (.error e, s')) : (m >>= f).run.run s = (.error e, s') := by
  change (ExceptT.bindCont f (m.run.run s).1).run (m.run.run s).2 = _
  rw [h]
  rfl

theorem run_bind_ok {m : CompileM σ α} {f : α → CompileM σ β} {s s' : Compiling σ} {a : α}
    (h : m.run.run s = (.ok a, s')) : (m >>= f).run.run s = (f a).run.run s' := by
  change (ExceptT.bindCont f (m.run.run s).1).run (m.run.run s).2 = _
  rw [h]
  rfl

def Session.ticked (s : Session σ) : Session σ :=
  { s with clock := (Clocked.read.run s.clock).2 }

def Ending.toExcept (late : Failure) : Ending α → Except Failure α
  | .done a => .ok a
  | .failed f => .error f
  | .expired => .error late

theorem run_inSession_bind (work : StateM (Session σ) α) (f : α → CompileM σ β)
    (s : Compiling σ) :
    (CompileM.inSession work >>= f).run.run s =
      (f (work.run s.session).1).run.run { s with session := (work.run s.session).2 } :=
  rfl

/-- Work within a time is not done at all because that is over, or else is done until some time. -/
theorem bounded_cases (expires : Float) (time : Option Float)
    (work : Float → StateM (Session σ) (Ending α)) (s : Compiling σ) :
    ∃ late, (time = none → ∃ reason, late = .late reason) ∧
      ((Compiler.bounded expires time work).run.run s =
          (.error late, { s with session := s.session.ticked }) ∨
        ∃ e, (Compiler.bounded expires time work).run.run s =
          (((work e).run s.session.ticked).1.toExcept late,
            { s with session := ((work e).run s.session.ticked).2 })) := by
  unfold Compiler.bounded
  rw [run_inSession_bind]
  dsimp only
  split
  · exact ⟨_, fun _ => ⟨_, rfl⟩, .inl rfl⟩
  · split
    · refine ⟨_, ?_, .inl rfl⟩
      rintro rfl
      exact ⟨_, rfl⟩
    -- There is time left, and the work is done.
    · rw [run_inSession_bind]
      have hending : ∀ (late : Failure) (ending : Ending α) (s : Compiling σ),
          (match ending with
            | .done a => return a
            | .failed f => throw f
            | .expired => throw late : CompileM σ α).run.run s = (ending.toExcept late, s) := by
        intro late ending s
        cases ending <;> rfl
      refine ⟨_, ?_, .inr ⟨_, hending _ _ _⟩⟩
      rintro rfl
      exact ⟨_, rfl⟩

/-- Work within a time, whose measure of calls is bounded, either goes on with what the work came to
or stops the compilation. -/
theorem bounded_ensures {P E : Known} {k : Nat} {expires : Float} {time : Option Float}
    {work : Float → StateM (Session (σ × Nat)) (Ending α)}
    (hwork : ∀ e, Adds Session.asked k (work e)) (hE : ∀ x n, P.after k x n → E x n) :
    Ensures P (Compiler.bounded expires time work) (fun _ => P.after k) E := by
  constructor
  intro s hs
  obtain ⟨late, -, hrun | ⟨e, hrun⟩⟩ := bounded_cases expires time work s
  · rw [hrun]
    exact hE _ _ ⟨_, hs, Nat.le_add_right _ k⟩
  · rw [hrun]
    have hafter : P.after k s.compilation ((work e).run s.session.ticked).2.asked :=
      ⟨_, hs, hwork e s.session.ticked⟩
    cases hending : ((work e).run s.session.ticked).1 with
    | done a => exact hafter
    | failed f => exact hE _ _ hafter
    | expired => exact hE _ _ hafter

theorem talk_ensures {P E : Known} {k : Nat} {w : World σ} {expires : Float} {time : Option Float}
    {d : Dialogue α} (hd : ∀ e, Adds Clocked.asked k (d.run w.counted (some e)))
    (hE : ∀ x n, P.after k x n → E x n) :
    Ensures P (Compiler.talk w.counted expires time d) (fun _ => P.after k) E :=
  bounded_ensures (fun e => onClock_adds (hd e)) hE

/-- Work that asks for no draft goes on as before. -/
theorem quiet_ensures {P E : Known} {w : World σ} {expires : Float} {time : Option Float}
    {d : Dialogue α} (hd : Quiet d) (hE : ∀ x n, P.after 0 x n → E x n) :
    Ensures P (Compiler.talk w.counted expires time d) (fun _ => P.after 0) E :=
  talk_ensures (fun _ => run_adds w _ hd) hE

end Soql
