import Soql.Proofs.Compilation.Parts

namespace Soql

variable {α β σ : Type}

def Question.isDraft : Question → Bool
  | .completion .code _ => true
  | _ => false

inductive Quiet : Dialogue α → Prop
  | done (a : α) : Quiet (.done a)
  | failed (f : Failure) : Quiet (.failed f)
  | ask {q : Question} {next : q.Answer → Dialogue α} (hq : q.isDraft = false)
    (hnext : ∀ answer, Quiet (next answer)) : Quiet (.ask q next)

namespace Quiet

theorem bind {d : Dialogue α} {next : α → Dialogue β} (h : Quiet d) (hnext : ∀ a, Quiet (next a)) :
    Quiet (d.bind next) := by
  induction h with
  | done a => exact hnext a
  | failed f => exact failed f
  | ask hq _ ih => exact ask hq ih

theorem askOr {q : Question} (hq : q.isDraft = false) (describe : Failure → Failure)
    (read : q.Answer → Except Failure α) : Quiet (Dialogue.askOr q describe read) := by
  apply ask hq
  intro answer
  cases read answer with
  | ok a => exact done a
  | error f => exact failed _

theorem catalog (tenant : Tenant) : Quiet (Dialogue.catalog tenant) :=
  askOr rfl _ _

theorem details (tenant : Tenant) (names : List String) : Quiet (Dialogue.details tenant names) :=
  askOr rfl _ _

theorem ground (g : Grounder) (tenant : Tenant) (objects : List SObject)
    (scope candidates : List String) : Quiet (g.ground tenant objects scope candidates) := by
  unfold Grounder.ground
  dsimp only
  split
  · split
    · exact done _
    · exact failed _
  · apply ask rfl
    intro replies
    split
    · exact done _
    · exact failed _

theorem rankFor (a : Assembler) (request : String) (tenant : Tenant) (objects : List SObject)
    (selected : List String) : Quiet (a.rankFor request tenant objects selected) := by
  unfold Assembler.rankFor
  dsimp only
  split
  · exact done _
  · split
    · exact done _
    · exact ask rfl fun _ => done _

theorem build (a : Assembler) (request : String) (tenant : Tenant) :
    Quiet (a.build request tenant) := by
  apply (catalog tenant).bind
  intro summaries
  apply (details tenant _).bind
  intro seeds
  apply (details tenant _).bind
  intro neighbors
  apply (rankFor a request tenant neighbors _).bind
  intro ranking
  exact (ground a.grounder tenant _ _ _).bind fun _ => done _

theorem adapt (a : Assembler) (context : Context) (request : String) (tenant : Tenant) :
    Quiet (a.adapt context request tenant) :=
  (ground a.grounder tenant _ _ _).bind fun _ => done _

theorem assemble (a : Assembler) (held : Option Context) (request : String) (tenant : Tenant) :
    Quiet (a.assemble held request tenant) := by
  cases held with
  | none => exact (build a request tenant).bind fun _ => done _
  | some context =>
    unfold Assembler.assemble
    simp only
    split
    · exact done _
    · exact (adapt a context request tenant).bind fun _ => done _

theorem completed (q : Query) (context : Context) (tenant : Tenant) (rounds : Nat)
    (catalog : Catalog) : Quiet (Soql.completed q context tenant rounds catalog) := by
  induction rounds generalizing catalog with
  | zero => exact done _
  | succ rounds ih =>
    unfold Soql.completed
    split
    · exact done _
    · apply (details tenant _).bind
      intro fetched
      split
      · exact done _
      · exact ih _

theorem completeFor (q : Query) (context : Context) (tenant : Tenant) :
    Quiet (Soql.completeFor q context tenant) :=
  (completed q context tenant _ _).bind fun _ => done _

theorem plan (request : String) (context : Context) : Quiet (Plan.make request context) :=
  (askOr rfl _ _).bind fun _ => done _

end Quiet

def beside (r : StateM σ α) : StateM (σ × Nat) α :=
  fun x => ((r.run x.1).1, (r.run x.1).2, x.2)

theorem beside_projects (r : StateM σ α) : Projects Prod.fst (beside r) r :=
  fun _ => rfl

theorem beside_adds (r : StateM σ α) : Adds Prod.snd 0 (beside r) :=
  fun _ => Nat.le_refl _

def World.counted (w : World σ) : World (σ × Nat) where
  catalog tenant := beside (w.catalog tenant)
  detail tenant name := beside (w.detail tenant name)
  vectors tenant names := beside (w.vectors tenant names)
  embed text := beside (w.embed text)
  search tenant text := beside (w.search tenant text)
  complete
    | .plan, prompt => beside (w.complete .plan prompt)
    | .code, prompt => do
      modify fun x => (x.1, x.2 + 1)
      beside (w.complete .code prompt)

def Clocked.asked (x : Clocked (σ × Nat)) : Nat :=
  x.state.2

def Clocked.plain (x : Clocked (σ × Nat)) : Clocked σ where
  now := x.now
  state := x.state.1

/-- To count how often a coder is asked changes nothing. -/
theorem World.counted_refines (w : World σ) : w.counted.Refines Prod.fst w where
  catalog _ := beside_projects _
  detail _ _ := beside_projects _
  vectors _ _ := beside_projects _
  embed _ := beside_projects _
  search _ _ := beside_projects _
  complete role _ := by cases role <;> exact fun _ => rfl

def Session.plain (s : Session (σ × Nat)) : Session σ :=
  { s with clock := s.clock.plain }

def Session.counting (n : Nat) (s : Session σ) : Session (σ × Nat) :=
  { s with clock := { now := s.clock.now, state := (s.clock.state, n) } }

def Question.drafts (q : Question) : Nat :=
  if q.isDraft then 1 else 0

theorem answer_adds (w : World σ) (q : Question) : Adds Prod.snd q.drafts (w.counted.answer q) := by
  cases q with
  | catalog tenant => exact (beside_adds _).after fun _ => Adds.pure _
  | details tenant names => exact (Adds.mapM fun _ => beside_adds _).after fun _ => Adds.pure _
  | vectors tenant names text =>
    exact (beside_adds _).after fun _ => (beside_adds _).after fun _ => Adds.pure _
  | searches tenant time texts awaited =>
    apply Adds.ite (Adds.pure _)
    exact (Adds.mapM fun _ => beside_adds _).after fun _ => Adds.pure _
  | completion role prompt =>
    cases role with
    | plan => exact (beside_adds _).after fun _ => Adds.pure _
    | code => exact fun x => Nat.le_refl (x.2 + 1)

theorem within_adds {n : Nat} {r : StateM (σ × Nat) α} (h : Adds Prod.snd n r) :
    Adds Clocked.asked n (Clocked.within r) :=
  fun x => h x.state

theorem wait_adds (seconds : Float) : Adds (Clocked.asked (σ := σ)) 0 (Clocked.wait seconds) :=
  fun _ => Nat.le_refl _

/-- A question and what follows it, where that asks for no draft. -/
theorem run_ask_adds (w : World σ) (expires : Option Float) {q : Question}
    {next : q.Answer → Dialogue α}
    (hnext : ∀ a, Adds Clocked.asked 0 ((next a).run w.counted expires)) :
    Adds Clocked.asked q.drafts ((Dialogue.ask q next).run w.counted expires) := by
  unfold Dialogue.run
  apply (within_adds (answer_adds w q)).bind (m := 0)
  intro response
  cases response with
  | never => exact fun _ => Nat.le_refl _
  | after seconds a =>
    apply Adds.get_bind
    intro x
    apply Adds.ite
    · exact fun _ => Nat.le_refl _
    · apply (wait_adds seconds).after
      intro _
      exact hnext a

theorem run_adds (w : World σ) (expires : Option Float) {d : Dialogue α} (h : Quiet d) :
    Adds Clocked.asked 0 (d.run w.counted expires) := by
  induction h with
  | done a => exact Adds.pure _
  | failed f => exact Adds.pure _
  | @ask q next hq _ ih =>
    have hadds := run_ask_adds w expires ih
    rwa [Question.drafts, hq] at hadds

/-- Work for a draft asks the coder once at most. -/
theorem draft_adds (w : World σ) (expires : Option Float) (request : String) (plan : Plan)
    (context : Context) (feedback : List String) :
    Adds Clocked.asked 1 ((Draft.make request plan context feedback).run w.counted expires) := by
  apply run_ask_adds w expires (q := .completion .code (Draft.prompt request plan context feedback))
  intro answer
  cases answer with
  | ok reply => exact Adds.pure _
  | error f => exact Adds.pure _

theorem obtain_adds (w : World σ) (a : Assembler) (policy : CachePolicy Float) (expires : Option Float)
    (request : String) (tenant : Tenant) (cache : ContextCache) :
    Adds Clocked.asked 0 ((a.obtain w.counted policy expires request tenant).run cache) := by
  unfold Assembler.obtain
  -- Only what assembles the context asks anything, and it asks for no draft.
  apply Adds.after_beside
  · exact fun _ _ => Nat.le_refl _
  intro now
  apply Adds.after_beside
  · exact fun _ _ => Nat.le_refl _
  intro held
  apply Adds.after_beside
  · exact Adds.lift_beside (run_adds w expires (Quiet.assemble _ _ _ _))
  intro ending
  cases ending with
  | done assembled => cases assembled <;> exact fun _ _ => Nat.le_refl _
  | failed f => exact fun _ _ => Nat.le_refl _
  | expired => exact fun _ _ => Nat.le_refl _

end Soql
