import Soql.Proofs.Compilation.Result
import Soql.Proofs.Context.Own

namespace Soql

variable {σ τ α β : Type} {R : σ → σ → Prop}

structure Onward (R : σ → σ → Prop) : Prop where
  refl : ∀ x, R x x
  trans : ∀ {x y z}, R x y → R y z → R x z

theorem Onward.invImage (hR : Onward R) (f : τ → σ) : Onward (InvImage R f) where
  refl x := hR.refl (f x)
  trans h h' := hR.trans h h'

def Moves (R : σ → σ → Prop) (r : StateM σ α) : Prop :=
  ∀ x, R x (r.run x).2

namespace Moves

theorem pure (hR : Onward R) (a : α) : Moves R (pure a) :=
  hR.refl

theorem bind (hR : Onward R) {r : StateM σ α} {f : α → StateM σ β} (h : Moves R r)
    (hf : ∀ a, Moves R (f a)) : Moves R (r >>= f) :=
  fun x => hR.trans (h x) (hf _ _)

theorem mapM (hR : Onward R) {l : List α} {f : α → StateM σ β} (hf : ∀ a, Moves R (f a)) :
    Moves R (l.mapM f) := by
  induction l with
  | nil => exact pure hR []
  | cons a l ih =>
    rw [List.mapM_cons]
    exact (hf a).bind hR fun _ => ih.bind hR fun _ => pure hR _

theorem ite {c : Prop} [Decidable c] {r r' : StateM σ α} (h : Moves R r) (h' : Moves R r') :
    Moves R (if c then r else r') := by
  split
  · exact h
  · exact h'

end Moves

/-- Every answer of the collaborators leads to a state that follows. -/
structure World.Advances (w : World σ) (R : σ → σ → Prop) : Prop where
  onward : Onward R
  catalog : ∀ tenant, Moves R (w.catalog tenant)
  detail : ∀ tenant name, Moves R (w.detail tenant name)
  vectors : ∀ tenant names, Moves R (w.vectors tenant names)
  embed : ∀ text, Moves R (w.embed text)
  search : ∀ tenant text, Moves R (w.search tenant text)
  complete : ∀ role prompt, Moves R (w.complete role prompt)

/-- Nothing need be known of the collaborators' states. -/
theorem World.advances_anyhow (w : World σ) : w.Advances fun _ _ => True where
  onward := ⟨fun _ => trivial, fun _ _ => trivial⟩
  catalog _ _ := trivial
  detail _ _ _ := trivial
  vectors _ _ _ := trivial
  embed _ _ := trivial
  search _ _ _ := trivial
  complete _ _ _ := trivial

/-- In another session the collaborators are further on, and the log and the usage are the same. -/
structure Session.Ahead (R : σ → σ → Prop) (s s' : Session σ) : Prop where
  state : R s.clock.state s'.clock.state
  log : s'.log = s.log
  usage : s'.usage = s.usage

theorem Session.ahead_onward (hR : Onward R) : Onward (Session.Ahead R) where
  refl _ := ⟨hR.refl _, rfl, rfl⟩
  trans h h' := ⟨hR.trans h.state h'.state, h'.log.trans h.log, h'.usage.trans h.usage⟩

/-- A step leaves the session as it is but for collaborators that are further on. -/
structure Keeps (R : σ → σ → Prop) (m : CompileM σ α) : Prop where
  run : Moves (InvImage (Session.Ahead R) Compiling.session) m.run

namespace Keeps

variable (hR : Onward R)

include hR

theorem still {m : CompileM σ α} (h : ∀ x, (m.run.run x).2.session = x.session) : Keeps R m := by
  constructor
  intro x
  rw [InvImage, h]
  exact (Session.ahead_onward hR).refl _

theorem bind {m : CompileM σ α} {f : α → CompileM σ β} (h : Keeps R m) (hf : ∀ a, Keeps R (f a)) :
    Keeps R (m >>= f) := by
  have hcont : ∀ result : Except Failure α,
      Moves (InvImage (Session.Ahead R) Compiling.session) (ExceptT.bindCont f result) := by
    intro result
    cases result with
    | ok a => exact (hf a).run
    | error f => exact fun _ => (Session.ahead_onward hR).refl _
  exact ⟨h.run.bind ((Session.ahead_onward hR).invImage _) hcont⟩

theorem pure (a : α) : Keeps R (Pure.pure a : CompileM σ α) :=
  still hR fun _ => rfl

theorem throw (f : Failure) : Keeps R (MonadExcept.throw f : CompileM σ α) :=
  still hR fun _ => rfl

theorem change_bind {f : Compilation → Compilation} {next : Unit → CompileM σ β} (h : Keeps R (next ())) :
    Keeps R (CompileM.change f >>= next) :=
  bind hR (still hR fun _ => rfl) fun _ => h

theorem known_bind {next : Compilation → CompileM σ β} (h : ∀ x, Keeps R (next x)) :
    Keeps R (CompileM.known >>= next) :=
  bind hR (still hR fun _ => rfl) h

omit hR in
/-- After work in the session, steps go on from what it leaves. -/
theorem run_after_session {f : Compilation → Compilation} {work : StateM (Session σ) α}
    {next : α → CompileM σ β} (h : ∀ a, Keeps R (next a)) (x : Compiling σ) :
    Session.Ahead R (work.run x.session).2
      ((CompileM.change f >>= fun _ => CompileM.inSession work >>= next).run.run x).2.session :=
  (h _).run { session := (work.run x.session).2, compilation := f x.compilation }

omit hR in
theorem ite {c : Prop} [Decidable c] {m m' : CompileM σ α} (h : Keeps R m) (h' : Keeps R m') :
    Keeps R (if c then m else m') := by
  split
  · exact h
  · exact h'

theorem bounded {expires : Float} {time : Option Float}
    {work : Float → StateM (Session σ) (Ending α)} (h : ∀ e, Moves (Session.Ahead R) (work e)) :
    Keeps R (Compiler.bounded expires time work) := by
  constructor
  intro x
  have hticked : Session.Ahead R x.session x.session.ticked := ⟨hR.refl _, rfl, rfl⟩
  obtain ⟨late, -, hrun | ⟨e, hrun⟩⟩ := bounded_cases expires time work x
  · rw [hrun]
    exact hticked
  · rw [hrun]
    exact (Session.ahead_onward hR).trans hticked (h e _)

end Keeps

namespace World.Advances

variable {w : World σ} (hw : w.Advances R)

include hw

theorem answer (q : Question) : Moves R (w.answer q) := by
  have hR := hw.onward
  cases q with
  | catalog tenant => exact (hw.catalog tenant).bind hR fun _ => .pure hR _
  | details tenant names => exact (Moves.mapM hR (hw.detail tenant)).bind hR fun _ => .pure hR _
  | vectors tenant names text =>
    exact (hw.vectors tenant names).bind hR fun _ => (hw.embed text).bind hR fun _ => .pure hR _
  | searches tenant time texts awaited =>
    exact .ite (.pure hR _) ((Moves.mapM hR (hw.search tenant)).bind hR fun _ => .pure hR _)
  | completion role prompt => exact (hw.complete role prompt).bind hR fun _ => .pure hR _

/-- By induction on the work: each question leads on, and so does what follows its answer. -/
theorem run (expires : Option Float) (d : Dialogue α) :
    Moves (InvImage R Clocked.state) (d.run w expires) := by
  induction d with
  | done a => exact fun _ => hw.onward.refl _
  | failed f => exact fun _ => hw.onward.refl _
  | ask q next ih =>
    intro x
    have hasked := hw.answer q x.state
    obtain ⟨now, hrun⟩ | ⟨seconds, a, now, -, hrun⟩ := Dialogue.run_ask_cases next w expires x
    · rw [hrun]
      exact hasked
    · rw [hrun]
      exact hw.onward.trans hasked (ih a ⟨now, _⟩)

theorem obtain (a : Assembler) (policy : CachePolicy Float) (expires : Option Float) (request : String)
    (tenant : Tenant) (cache : ContextCache) :
    Moves (InvImage R Clocked.state) ((a.obtain w policy expires request tenant).run cache) := by
  intro x
  have hkeep : ∀ ending kept (y : Clocked σ),
      (((Assembler.keepMade policy request tenant ending).run kept).run y).2.state = y.state := by
    intro ending kept y
    cases ending with
    | done assembled => cases assembled <;> rfl
    | failed f => rfl
    | expired => rfl
  rw [Assembler.obtain_run, InvImage, hkeep]
  exact hw.run expires _ (Clocked.read.run x).2

end World.Advances

namespace Compiler

variable {w : World σ} {c : Compiler} {expires : Float} {time : Option Float} {request : String}
  {tenant : Tenant} {context : Context}

def assembling (w : World σ) (c : Compiler) (request : String) (tenant : Tenant) (expires : Float) :
    CompileM σ Assembler.Assembled :=
  bounded expires none fun e => Session.onCache (c.assembler.obtain w c.policy (some e) request tenant)

theorem steps_eq (w : World σ) (c : Compiler) (now : Moment) (request : String) (tenant : Tenant)
    (expires : Float) :
    steps w c now request tenant expires =
      assembling w c request tenant expires >>= fun a =>
        planThen w c now request tenant expires a.context :=
  rfl

section

variable (hw : w.Advances R)

include hw

theorem talk_keeps (d : Dialogue α) : Keeps R (talk w expires time d) :=
  .bounded hw.onward fun e s => ⟨hw.run (some e) d s.clock, rfl, rfl⟩

theorem assembling_keeps : Keeps R (assembling w c request tenant expires) :=
  .bounded hw.onward fun e s =>
    ⟨hw.obtain c.assembler c.policy (some e) request tenant s.cache s.clock, rfl, rfl⟩

theorem hydrated_keeps (q : Query) : Keeps R (hydrated w expires q context tenant) :=
  .bind hw.onward (talk_keeps hw _) fun _ => .pure hw.onward _

theorem endTolerantly_keeps (text : String) (complaints : List Message) :
    Keeps R (endTolerantly w c expires tenant context text complaints) := by
  have hR := hw.onward
  unfold endTolerantly
  apply Keeps.known_bind hR
  intro sofar
  apply Keeps.ite
  · exact .pure hR _
  · dsimp only
    split
    · apply Keeps.ite
      · exact .bind hR (hydrated_keeps hw _) fun _ => .pure hR _
      · exact .bind hR (.pure hR _) fun _ => .pure hR _
    · exact .bind hR (.pure hR _) fun _ => .pure hR _

variable {again : Again σ} (hagain : ∀ next, again = some next → ∀ context feedback, Keeps R (next context feedback))

include hagain

theorem fromUnread_keeps (text : String) (e : ParseError) :
    Keeps R (fromUnread w c expires tenant again context text e) := by
  have hR := hw.onward
  unfold fromUnread
  apply Keeps.known_bind hR
  intro sofar
  apply Keeps.change_bind hR
  cases again with
  | none => exact endTolerantly_keeps hw _ _
  | some next => exact .change_bind hR (hagain next rfl _ _)

theorem fromQuery_keeps (text : String) (q : Query) :
    Keeps R (fromQuery w c expires tenant again context text q) := by
  have hR := hw.onward
  unfold fromQuery
  apply Keeps.known_bind hR
  intro sofar
  apply Keeps.change_bind hR
  apply Keeps.bind hR (hydrated_keeps hw _)
  intro context
  cases c.repaired q context with
  | error f => exact .throw hR f
  | ok outcome =>
    apply Keeps.change_bind hR
    apply Keeps.ite
    · exact .known_bind hR fun _ => .pure hR _
    · cases again with
      | none => exact .change_bind hR (.known_bind hR fun _ => .pure hR _)
      | some next => exact .change_bind hR (hagain next rfl _ _)

theorem draftThen_keeps (plan : Plan) (feedback : List String) :
    Keeps R (draftThen w c expires tenant request plan again context feedback) := by
  unfold draftThen
  apply Keeps.bind hw.onward (talk_keeps hw _)
  intro draft
  split
  · exact .throw hw.onward _
  · exact fromUnread_keeps hw hagain _ _
  · exact fromQuery_keeps hw hagain _ _

omit hagain

/-- By induction on how many further drafts may be asked for. -/
theorem drafts_keeps (plan : Plan) (left : Nat) (feedback : List String) :
    Keeps R (drafts w c expires tenant request plan left context feedback) := by
  induction left generalizing context feedback with
  | zero => exact draftThen_keeps hw (fun _ h => by cases h) plan feedback
  | succ left ih =>
    apply draftThen_keeps hw _ plan feedback
    intro next hnext context feedback
    cases hnext
    exact ih feedback

/-- Once there is a context, the log is started, and the rest leaves it alone. -/
theorem planThen_ahead (now : Moment) (x : Compiling σ) :
    Session.Ahead R ((startLog now request tenant context).run x.session).2
      ((planThen w c now request tenant expires context).run.run x).2.session := by
  unfold planThen
  apply Keeps.run_after_session
  intro _
  apply Keeps.bind hw.onward (talk_keeps hw _)
  intro plan
  apply Keeps.change_bind hw.onward
  apply Keeps.change_bind hw.onward
  cases plan with
  | error e => exact .known_bind hw.onward fun _ => .pure hw.onward _
  | ok plan => exact drafts_keeps hw plan _ []

end

end Compiler

end Soql
