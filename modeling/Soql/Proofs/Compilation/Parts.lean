import Soql.Compilation.Compile
import Soql.Proofs.Projection

namespace Soql

variable {τ σ α β : Type} {part : τ → σ}

structure World.Refines (w' : World τ) (part : τ → σ) (w : World σ) : Prop where
  catalog : ∀ tenant, Projects part (w'.catalog tenant) (w.catalog tenant)
  detail : ∀ tenant name, Projects part (w'.detail tenant name) (w.detail tenant name)
  vectors : ∀ tenant names, Projects part (w'.vectors tenant names) (w.vectors tenant names)
  embed : ∀ text, Projects part (w'.embed text) (w.embed text)
  search : ∀ tenant text, Projects part (w'.search tenant text) (w.search tenant text)
  complete : ∀ role prompt, Projects part (w'.complete role prompt) (w.complete role prompt)

def Clocked.onPart (part : τ → σ) (x : Clocked τ) : Clocked σ where
  now := x.now
  state := part x.state

def Session.onPart (part : τ → σ) (s : Session τ) : Session σ :=
  { s with clock := s.clock.onPart part }

def Compiling.onPart (part : τ → σ) (x : Compiling τ) : Compiling σ :=
  { x with session := x.session.onPart part }

variable {w' : World τ} {w : World σ}

theorem World.Refines.answer (h : w'.Refines part w) (q : Question) :
    Projects part (w'.answer q) (w.answer q) := by
  cases q with
  | catalog tenant => exact (h.catalog tenant).bind fun _ => Projects.pure _
  | details tenant names => exact (Projects.mapM (h.detail tenant)).bind fun _ => Projects.pure _
  | vectors tenant names text =>
    exact (h.vectors tenant names).bind fun _ => (h.embed text).bind fun _ => Projects.pure _
  | searches tenant time texts awaited =>
    apply Projects.ite (Projects.pure _)
    exact (Projects.mapM (h.search tenant)).bind fun _ => Projects.pure _
  | completion role prompt => exact (h.complete role prompt).bind fun _ => Projects.pure _

theorem within_projects {r : StateM τ α} {r' : StateM σ α} (h : Projects part r r') :
    Projects (Clocked.onPart part) (Clocked.within r) (Clocked.within r') := by
  apply Projects.modifyGet
  intro x
  have hx : ((r x.state).1, part (r x.state).2) = r' (x.onPart part).state := h x.state
  rw [← hx]
  rfl

theorem wait_projects (seconds : Float) :
    Projects (Clocked.onPart part) (Clocked.wait seconds) (Clocked.wait seconds) :=
  fun _ => rfl

theorem World.Refines.run (h : w'.Refines part w) (expires : Option Float) (d : Dialogue α) :
    Projects (Clocked.onPart part) (d.run w' expires) (d.run w expires) := by
  -- The answers are the same on both sides, and so is the way the work goes on.
  induction d with
  | done a => exact Projects.pure _
  | failed f => exact Projects.pure _
  | ask q next ih =>
    unfold Dialogue.run
    apply (within_projects (h.answer q)).bind
    intro response
    cases response with
    | never => exact fun _ => rfl
    | after seconds a =>
      apply Projects.get_bind
      intro x
      apply Projects.ite
      · exact fun _ => rfl
      · apply (wait_projects seconds).bind
        intro _
        exact ih a

theorem World.Refines.obtain (h : w'.Refines part w) (a : Assembler) (policy : CachePolicy Float)
    (expires : Option Float) (request : String) (tenant : Tenant) (cache : ContextCache) :
    Projects (Clocked.onPart part) ((a.obtain w' policy expires request tenant).run cache)
      ((a.obtain w policy expires request tenant).run cache) := by
  unfold Assembler.obtain
  apply Projects.bind_beside
  · exact fun _ _ => rfl
  intro now
  apply Projects.bind_beside
  · exact fun _ _ => rfl
  intro held
  apply Projects.bind_beside
  · exact Projects.lift_beside (h.run expires _)
  intro ending
  cases ending with
  | done assembled => cases assembled <;> exact fun _ _ => rfl
  | failed f => exact fun _ _ => rfl
  | expired => exact fun _ _ => rfl

theorem onClock_projects {work' : StateM (Clocked τ) α} {work : StateM (Clocked σ) α}
    (h : Projects (Clocked.onPart part) work' work) :
    Projects (Session.onPart part) (Session.onClock work') (Session.onClock work) := by
  apply Projects.modifyGet
  intro s
  have hs : ((work' s.clock).1, (work' s.clock).2.onPart part) = work (s.onPart part).clock := h s.clock
  rw [← hs]
  rfl

theorem onCache_projects {work' : Keeping τ α} {work : Keeping σ α}
    (h : ∀ cache, Projects (Clocked.onPart part) (work'.run cache) (work.run cache)) :
    Projects (Session.onPart part) (Session.onCache work') (Session.onCache work) := by
  apply Projects.modifyGet
  intro s
  have hs : ((work' s.cache s.clock).1, (work' s.cache s.clock).2.onPart part) =
      work (s.onPart part).cache (s.onPart part).clock := h s.cache s.clock
  rw [← hs]
  rfl

theorem read_projects : Projects (Clocked.onPart part) Clocked.read Clocked.read :=
  fun _ => rfl

theorem startLog_projects (now : Moment) (request : String) (tenant : Tenant) (context : Context) :
    Projects (Session.onPart part) (Compiler.startLog now request tenant context)
      (Compiler.startLog now request tenant context) :=
  fun _ => rfl

structure Follows (part : τ → σ) (m' : CompileM τ α) (m : CompileM σ α) : Prop where
  run : Projects (Compiling.onPart part) m'.run m.run

namespace Follows

theorem pure (a : α) : Follows part (Pure.pure a) (Pure.pure a) :=
  ⟨fun _ => rfl⟩

theorem throw (f : Failure) :
    Follows part (MonadExcept.throw f : CompileM τ α) (MonadExcept.throw f) :=
  ⟨fun _ => rfl⟩

theorem throw_bind {f : Failure} {next' : α → CompileM τ β} {next : α → CompileM σ β} :
    Follows part (MonadExcept.throw f >>= next') (MonadExcept.throw f >>= next) :=
  ⟨fun _ => rfl⟩

theorem bind {m' : CompileM τ α} {m : CompileM σ α} {f' : α → CompileM τ β} {f : α → CompileM σ β}
    (h : Follows part m' m) (hf : ∀ a, Follows part (f' a) (f a)) :
    Follows part (m' >>= f') (m >>= f) := by
  have hcont : ∀ result : Except Failure α,
      Projects (Compiling.onPart part) (ExceptT.bindCont f' result) (ExceptT.bindCont f result) := by
    intro result
    cases result with
    | ok a => exact (hf a).run
    | error f => exact Projects.pure _
  exact ⟨h.run.bind hcont⟩

theorem ite {c : Prop} [Decidable c] {m' s' : CompileM τ α} {m s : CompileM σ α}
    (hm : Follows part m' m) (hs : Follows part s' s) :
    Follows part (if c then m' else s') (if c then m else s) := by
  split
  · exact hm
  · exact hs

theorem inSession {work' : StateM (Session τ) α} {work : StateM (Session σ) α}
    (h : Projects (Session.onPart part) work' work) :
    Follows part (CompileM.inSession work') (CompileM.inSession work) := by
  constructor
  intro x
  have hx : ((work' x.session).1, (work' x.session).2.onPart part) = work (x.onPart part).session :=
    h x.session
  change (_, _) = (Except.ok (work (x.onPart part).session).1, _)
  rw [← hx]
  rfl

theorem change (f : Compilation → Compilation) :
    Follows part (CompileM.change f) (CompileM.change f) :=
  ⟨fun _ => rfl⟩

theorem known : Follows part CompileM.known CompileM.known :=
  ⟨fun _ => rfl⟩

end Follows

variable {c : Compiler} {expires : Float} {time : Option Float} {request : String} {tenant : Tenant}
  {context : Context} {again' : Compiler.Again τ} {again : Compiler.Again σ}

theorem bounded_follows {work' : Float → StateM (Session τ) (Ending α)}
    {work : Float → StateM (Session σ) (Ending α)}
    (h : ∀ e, Projects (Session.onPart part) (work' e) (work e)) :
    Follows part (Compiler.bounded expires time work') (Compiler.bounded expires time work) := by
  unfold Compiler.bounded
  apply (Follows.inSession (onClock_projects read_projects)).bind
  intro now
  apply Follows.ite
  · exact Follows.throw_bind
  · apply Follows.ite
    · exact Follows.throw _
    · apply (Follows.inSession (h _)).bind
      intro ending
      cases ending with
      | done a => exact Follows.pure a
      | failed f => exact Follows.throw f
      | expired => exact Follows.throw _

inductive Alike (part : τ → σ) : Compiler.Again τ → Compiler.Again σ → Prop
  | last : Alike part none none
  | next {again' : Context → List String → CompileM τ Compiled}
    {again : Context → List String → CompileM σ Compiled}
    (h : ∀ context feedback, Follows part (again' context feedback) (again context feedback)) :
    Alike part (some again') (some again)

namespace World.Refines

variable (hw : w'.Refines part w)

include hw

theorem talk (d : Dialogue α) :
    Follows part (Compiler.talk w' expires time d) (Compiler.talk w expires time d) :=
  bounded_follows fun e => onClock_projects (hw.run (some e) d)

theorem hydrated (q : Query) (context : Context) :
    Follows part (Compiler.hydrated w' expires q context tenant)
      (Compiler.hydrated w expires q context tenant) :=
  (hw.talk _).bind fun _ => Follows.pure _

theorem endTolerantly (text : String) (complaints : List Message) :
    Follows part (Compiler.endTolerantly w' c expires tenant context text complaints)
      (Compiler.endTolerantly w c expires tenant context text complaints) := by
  unfold Compiler.endTolerantly
  apply Follows.known.bind
  intro sofar
  apply Follows.ite
  · exact Follows.pure _
  · dsimp only
    split
    · apply Follows.ite
      · exact (hw.hydrated _ _).bind fun _ => Follows.pure _
      · exact (Follows.pure _).bind fun _ => Follows.pure _
    · exact (Follows.pure _).bind fun _ => Follows.pure _

theorem fromUnread (h : Alike part again' again) (text : String) (e : ParseError) :
    Follows part (Compiler.fromUnread w' c expires tenant again' context text e)
      (Compiler.fromUnread w c expires tenant again context text e) := by
  unfold Compiler.fromUnread
  apply Follows.known.bind
  intro sofar
  apply (Follows.change _).bind
  intro _
  cases h with
  | last => exact hw.endTolerantly _ _
  | next h => exact (Follows.change _).bind fun _ => h _ _

theorem fromQuery (h : Alike part again' again) (text : String) (q : Query) :
    Follows part (Compiler.fromQuery w' c expires tenant again' context text q)
      (Compiler.fromQuery w c expires tenant again context text q) := by
  unfold Compiler.fromQuery
  apply Follows.known.bind
  intro sofar
  apply (Follows.change _).bind
  intro _
  apply (hw.hydrated _ _).bind
  intro context
  cases c.repaired q context with
  | error f => exact Follows.throw f
  | ok outcome =>
    apply (Follows.change _).bind
    intro _
    apply Follows.ite
    · exact Follows.known.bind fun _ => Follows.pure _
    · cases h with
      | last => exact (Follows.change _).bind fun _ => Follows.known.bind fun _ => Follows.pure _
      | next h => exact (Follows.change _).bind fun _ => h _ _

theorem draftThen (h : Alike part again' again) (plan : Plan) (feedback : List String) :
    Follows part (Compiler.draftThen w' c expires tenant request plan again' context feedback)
      (Compiler.draftThen w c expires tenant request plan again context feedback) := by
  unfold Compiler.draftThen
  apply (hw.talk _).bind
  intro draft
  split
  · exact Follows.throw _
  · exact hw.fromUnread h _ _
  · exact hw.fromQuery h _ _

theorem drafts (plan : Plan) (left : Nat) (context : Context) (feedback : List String) :
    Follows part (Compiler.drafts w' c expires tenant request plan left context feedback)
      (Compiler.drafts w c expires tenant request plan left context feedback) := by
  induction left generalizing context feedback with
  | zero => exact hw.draftThen .last plan feedback
  | succ left ih => exact hw.draftThen (.next ih) plan feedback

theorem planThen (now : Moment) :
    Follows part (Compiler.planThen w' c now request tenant expires context)
      (Compiler.planThen w c now request tenant expires context) := by
  unfold Compiler.planThen
  apply (Follows.change _).bind
  intro _
  apply (Follows.inSession (startLog_projects now request tenant context)).bind
  intro _
  apply (hw.talk _).bind
  intro plan
  apply (Follows.change _).bind
  intro _
  apply (Follows.change _).bind
  intro _
  cases plan with
  | error e => exact Follows.known.bind fun _ => Follows.pure _
  | ok plan => exact hw.drafts plan _ context []

theorem steps (now : Moment) :
    Follows part (Compiler.steps w' c now request tenant expires)
      (Compiler.steps w c now request tenant expires) := by
  apply (bounded_follows _).bind
  · exact fun assembled => hw.planThen now
  · exact fun e => onCache_projects (hw.obtain c.assembler c.policy (some e) request tenant)

end World.Refines

end Soql
