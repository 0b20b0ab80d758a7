import Soql.Compilation.Compile
import Soql.Proofs.Context.Own

namespace Soql

variable {σ α β : Type}

/-- What a step comes to has a property, and so has the failure that stops the compilation. -/
def Halts (Q : α → Prop) (E : Failure → Prop) : Except Failure α → Prop
  | .ok a => Q a
  | .error f => E f

/-- However it is run, a step comes to a result with a property, or stops the compilation with a failure
with another one. -/
structure Gives (m : CompileM σ α) (Q : α → Prop) (E : Failure → Prop) : Prop where
  run : ∀ s, Halts Q E (m.run.run s).1

namespace Gives

variable {Q : α → Prop} {R : β → Prop} {E : Failure → Prop}

theorem pure {a : α} (h : Q a) : Gives (Pure.pure a : CompileM σ α) Q E :=
  ⟨fun _ => h⟩

theorem throw {f : Failure} (h : E f) : Gives (MonadExcept.throw f : CompileM σ α) Q E :=
  ⟨fun _ => h⟩

theorem bind {m : CompileM σ α} {next : α → CompileM σ β} (h : Gives m Q E)
    (hnext : ∀ a, Q a → Gives (next a) R E) : Gives (m >>= next) R E := by
  constructor
  intro s
  have hm := h.run s
  change Halts R E ((ExceptT.bindCont next (m.run.run s).1).run (m.run.run s).2).1
  cases hrun : (m.run.run s).1 with
  | ok a =>
    rw [hrun] at hm
    exact (hnext a hm).run _
  | error f =>
    rw [hrun] at hm
    exact hm

theorem inSession {work : StateM (Session σ) α} (h : ∀ s, Q (work.run s).1) :
    Gives (CompileM.inSession work) Q E :=
  ⟨fun s => h s.session⟩

/-- A change, and what follows it. -/
theorem change_bind {f : Compilation → Compilation} {next : Unit → CompileM σ β} (h : Gives (next ()) R E) :
    Gives (CompileM.change f >>= next) R E :=
  ⟨fun _ => h.run _⟩

/-- A look at what is known, and what follows it. -/
theorem known_bind {next : Compilation → CompileM σ β} (h : ∀ x, Gives (next x) R E) :
    Gives (CompileM.known >>= next) R E :=
  ⟨fun s => (h s.compilation).run s⟩

theorem ite {c : Prop} [Decidable c] {m m' : CompileM σ α} (h : Gives m Q E) (h' : Gives m' Q E) :
    Gives (if c then m else m') Q E := by
  split
  · exact h
  · exact h'

end Gives

inductive Stopped (w : World σ) (c : Compiler) (request : String) : Failure → Prop
  | late (reason : String) : Stopped w c request (.late reason)
  | unassembled {f : Failure} (h : Unassembled request f) : Stopped w c request f
  /-- a model has answered with a query whose count is too long -/
  | uncountable {prompt : Prompt} {x : σ} {reply : String}
    (replied : ((w.complete .code prompt).run x).1 = .answered reply)
    (tooLong : Query.parse (Draft.ofReply reply []).query = .error .countTooLong) :
    Stopped w c request .notANumber
  /-- a model has answered with a query that cannot be corrected in some context -/
  | uncorrected {prompt : Prompt} {x : σ} {reply : String} {q : Query} {context : Context} {f : Failure}
    (replied : ((w.complete .code prompt).run x).1 = .answered reply)
    (parsed : Query.parse (Draft.ofReply reply []).query = .ok q) (failed : c.repaired q context = .error f) :
    Stopped w c request f

variable {w : World σ} {c : Compiler} {request : String}

theorem stopped_unreached (capability reason : String) : Stopped w c request (.unreachable capability reason) :=
  .unassembled (.unreached capability reason)

theorem stopped_expired (time : Option Float) : Stopped w c request (.expired time) := by
  cases time with
  | none => exact .late _
  | some seconds => exact stopped_unreached _ _

/-- What work comes to is passed on, and so is its failure. -/
theorem ending_gives {Q : α → Prop} {late : Failure} (hlate : Stopped w c request late) (ending : Ending α) :
    Ending.Only Q (Stopped w c request) ending →
      Gives
        (match ending with
          | .done a => return a
          | .failed f => throw f
          | .expired => throw late : CompileM σ α) Q (Stopped w c request) := by
  intro h
  cases ending with
  | done a => exact Gives.pure h
  | failed f => exact Gives.throw h
  | expired => exact Gives.throw hlate

/-- Work within a time comes to what the work itself comes to, unless the time is over. -/
theorem bounded_gives {Q : α → Prop} {expires : Float} {time : Option Float}
    {work : Float → StateM (Session σ) (Ending α)}
    (h : ∀ e s, Ending.Only Q (Stopped w c request) ((work e).run s).1) :
    Gives (Compiler.bounded expires time work) Q (Stopped w c request) := by
  unfold Compiler.bounded
  apply Gives.bind (Q := fun _ => True) (Gives.inSession fun _ => trivial)
  intro now _
  dsimp only
  apply Gives.ite
  · exact Gives.bind (Q := fun _ => False) (Gives.throw (.late _)) fun _ hnever => hnever.elim
  · apply Gives.ite
    · exact (Gives.pure trivial).bind (ending_gives (stopped_expired _))
    · exact (Gives.inSession fun s => h _ s).bind (ending_gives (stopped_expired _))

/-- A dialogue comes to what its answers allow, unless the time is over. -/
theorem talk_gives {Q : α → Prop} {expires : Float} {time : Option Float} {d : Dialogue α}
    (h : ∀ e x, Ending.Only Q (Stopped w c request) ((d.run w (some e)).run x).1) :
    Gives (Compiler.talk w expires time d) Q (Stopped w c request) :=
  bounded_gives fun e s => h e s.clock

theorem talk_only {expires : Float} {time : Option Float} {d : Dialogue α}
    (h : d.Only (fun _ => True) (Unassembled request)) :
    Gives (Compiler.talk w expires time d) (fun _ => True) (Stopped w c request) :=
  talk_gives fun e x => (h.weaken (fun _ h => h) fun _ hf => Stopped.unassembled hf).run w (some e) x

namespace Dialogue

theorem plan_only (context : Context) :
    (Plan.make request context).Only (fun _ => True) (Unassembled request) := by
  apply (askOr_only "completion" "planner call failed").bind
  exact fun _ _ => .done trivial

theorem completed_only (q : Query) (context : Context) (tenant : Tenant) (rounds : Nat) (catalog : Catalog) :
    (completed q context tenant rounds catalog).Only (fun _ => True) (Unassembled request) := by
  induction rounds generalizing catalog with
  | zero => exact .done trivial
  | succ rounds ih =>
    unfold completed
    split
    · exact .done trivial
    · apply (askOr_only "graph" "object details unavailable").bind
      intro fetched _
      split
      · exact .done trivial
      · exact ih _

theorem completeFor_only (q : Query) (context : Context) (tenant : Tenant) :
    (completeFor q context tenant).Only (fun _ => True) (Unassembled request) := by
  apply (completed_only q context tenant _ _).bind
  exact fun _ _ => .done trivial

end Dialogue

def Drafted (w : World σ) (draft : Draft) : Prop :=
  ∃ prompt x reply, ((w.complete .code prompt).run x).1 = .answered reply ∧
    draft.query = (Draft.ofReply reply []).query

theorem query_ofReply (reply : String) (feedback : List String) :
    (Draft.ofReply reply feedback).query = (Draft.ofReply reply []).query := by
  unfold Draft.ofReply
  split <;> rfl

theorem draft_only (plan : Plan) (context : Context) (feedback : List String) (e : Float) (x : Clocked σ) :
    Ending.Only (Drafted w) (Stopped w c request)
      (((Draft.make request plan context feedback).run w (some e)).run x).1 := by
  apply Dialogue.run_ask_only (q := .completion .code (Draft.prompt request plan context feedback))
  intro seconds answer hanswer y
  change Response.ofReply ((w.complete .code _).run x.state).1 = _ at hanswer
  cases hreply : ((w.complete .code (Draft.prompt request plan context feedback)).run x.state).1 with
  | answered reply =>
    rw [hreply] at hanswer
    cases hanswer
    exact ⟨_, _, reply, hreply, query_ofReply reply _⟩
  | failed f =>
    rw [hreply] at hanswer
    cases hanswer
    exact .unassembled (Dialogue.unassembled_during _ _ f)
  | silent =>
    rw [hreply] at hanswer
    cases hanswer

namespace Compiler

variable {tenant : Tenant} {expires : Float} {again : Again σ} {context : Context}

theorem hydrated_gives (q : Query) :
    Gives (hydrated w expires q context tenant) (fun _ => True) (Stopped w c request) := by
  apply (talk_only (Dialogue.completeFor_only q context tenant)).bind
  exact fun _ _ => Gives.pure trivial

theorem endTolerantly_gives (text : String) (complaints : List Message) :
    Gives (endTolerantly w c expires tenant context text complaints) (fun _ => True) (Stopped w c request) := by
  unfold endTolerantly
  apply Gives.known_bind
  intro sofar
  apply Gives.ite (Gives.pure trivial)
  have hmade : ∀ context : Context, True → Gives
      (pure (c.madeUp sofar context text complaints) : CompileM σ Compiled) (fun _ => True)
      (Stopped w c request) := fun _ _ => Gives.pure trivial
  dsimp only
  split
  · apply Gives.ite
    · exact (hydrated_gives _).bind hmade
    · exact (Gives.pure trivial).bind hmade
  · exact (Gives.pure trivial).bind hmade

def Again.Gives (w : World σ) (c : Compiler) (request : String) (again : Again σ) : Prop :=
  ∀ next ∈ again, ∀ context feedback, Soql.Gives (next context feedback) (fun _ => True) (Stopped w c request)

theorem fromUnread_gives (hagain : again.Gives w c request) (text : String) (e : ParseError) :
    Gives (fromUnread w c expires tenant again context text e) (fun _ => True) (Stopped w c request) := by
  unfold fromUnread
  apply Gives.known_bind
  intro sofar
  apply Gives.change_bind
  cases again with
  | none => exact endTolerantly_gives _ _
  | some next =>
    apply Gives.change_bind
    exact hagain next rfl _ _

theorem fromQuery_gives (hagain : again.Gives w c request) (text : String) {q : Query}
    (hfailed : ∀ context f, c.repaired q context = .error f → Stopped w c request f) :
    Gives (fromQuery w c expires tenant again context text q) (fun _ => True) (Stopped w c request) := by
  unfold fromQuery
  apply Gives.known_bind
  intro sofar
  apply Gives.change_bind
  apply (hydrated_gives q).bind
  intro context _
  cases hrepaired : c.repaired q context with
  | error f => exact Gives.throw (hfailed _ _ hrepaired)
  | ok outcome =>
    apply Gives.change_bind
    apply Gives.ite
    · exact Gives.known_bind fun _ => Gives.pure trivial
    · cases again with
      | none =>
        apply Gives.change_bind
        exact Gives.known_bind fun _ => Gives.pure trivial
      | some next =>
        apply Gives.change_bind
        exact hagain next rfl _ _

theorem draftThen_gives (hagain : again.Gives w c request) (plan : Plan) (feedback : List String) :
    Gives (draftThen w c expires tenant request plan again context feedback) (fun _ => True)
      (Stopped w c request) := by
  unfold draftThen
  apply (talk_gives (draft_only plan context feedback)).bind
  rintro draft ⟨prompt, x, reply, hreplied, hquery⟩
  split
  case h_1 htoolong =>
    rw [hquery] at htoolong
    exact Gives.throw (.uncountable hreplied htoolong)
  · exact fromUnread_gives hagain _ _
  case h_3 q hparsed =>
    rw [hquery] at hparsed
    exact fromQuery_gives hagain _ fun context f hfailed => .uncorrected hreplied hparsed hfailed

/-- By induction on how many further drafts may be asked for. -/
theorem drafts_gives (plan : Plan) (left : Nat) (feedback : List String) :
    Gives (drafts w c expires tenant request plan left context feedback) (fun _ => True)
      (Stopped w c request) := by
  induction left generalizing context feedback with
  | zero => exact draftThen_gives (fun _ h => by cases h) plan feedback
  | succ left ih =>
    apply draftThen_gives _ plan feedback
    intro next hnext context feedback
    cases hnext
    exact ih feedback

theorem planThen_gives (now : Moment) :
    Gives (planThen w c now request tenant expires context) (fun _ => True) (Stopped w c request) := by
  unfold planThen
  apply Gives.change_bind
  apply Gives.bind (Q := fun _ => True) (Gives.inSession fun _ => trivial)
  intro _ _
  apply (talk_only (Dialogue.plan_only context)).bind
  intro plan _
  apply Gives.change_bind
  apply Gives.change_bind
  cases plan with
  | error e => exact Gives.known_bind fun _ => Gives.pure trivial
  | ok plan => exact drafts_gives plan _ []

theorem steps_gives (now : Moment) :
    Gives (steps w c now request tenant expires) (fun _ => True) (Stopped w c request) := by
  unfold steps
  apply Gives.bind (Q := fun _ => True)
  · apply bounded_gives
    intro e s
    exact (Assembler.obtain_failures s.clock).weaken (fun _ _ => trivial) fun _ h => .unassembled h
  · exact fun _ _ => planThen_gives now

end Compiler

end Soql
