import Mathlib.Data.List.Induction
import Soql.Context.Session
import Soql.Proofs.Context.Foremost
import Soql.Proofs.Context.Request
import Soql.Proofs.Grounding.Candidates
import Soql.Rehearsal

namespace Soql

variable {σ : Type}

/-- The context is one for a tenant and a request: it has the intents and the values of the request. -/
structure Context.Answers (c : Context) (request : String) (tenant : Tenant) : Prop where
  tenant : c.tenant = tenant
  intents : c.intents = Request.intents request
  values : c.grounding.map (·.candidate) = (Request.terms request).values

/-- Why no context is assembled: a collaborator was not reached, or a value of the request cannot be
read. -/
inductive Unassembled (request : String) : Failure → Prop
  | unreached (capability reason : String) : Unassembled request (.unreachable capability reason)
  | unread {v : String} {f : Failure} (mentioned : v ∈ (Request.terms request).values)
    (unreadable : Recognition.of v = .error f) : Unassembled request f

def Request.Readable (request : String) : Prop :=
  ∀ v ∈ (Request.terms request).values, Recognition.Readable v

namespace Dialogue

variable {α : Type} {request : String}

theorem unassembled_during (capability activity : String) (f : Failure) :
    Unassembled request (Failure.during capability activity f) := by
  unfold Failure.during
  split
  · exact .unreached _ _
  · exact .unreached _ _

theorem askOr_only {question : Question} {read : question.Answer → Except Failure α}
    (capability activity : String) :
    (askOr question (Failure.during capability activity) read).Only (fun _ => True) (Unassembled request) := by
  apply Only.ask
  intro answer
  cases read answer with
  | ok a => exact .done trivial
  | error f => exact .failed (unassembled_during capability activity f)

theorem ground_only (request : String) (g : Grounder) (tenant : Tenant) (objects : List SObject) (scope : List String) :
    (g.ground tenant objects scope (Request.terms request).values).Only
      (fun found => found.map (·.candidate) = (Request.terms request).values ∧ Request.Readable request)
      (Unassembled request) :=
  (g.ground_only (Request.values_trimmed request) tenant objects scope).weaken (fun _ h => h)
    fun _ ⟨_, hv, hunread⟩ => .unread hv hunread

end Dialogue

namespace Assembler

open Dialogue

variable (a : Assembler) (request : String) (tenant : Tenant)

theorem rankFor_only (objects : List SObject) (selected : List String) :
    (a.rankFor request tenant objects selected).Only (fun _ => True) (Unassembled request) := by
  unfold rankFor
  dsimp only
  split
  · exact .done trivial
  · split
    · exact .done trivial
    · exact .ask fun _ => .done trivial

theorem build_only :
    (a.build request tenant).Only (fun c => c.Answers request tenant ∧ Request.Readable request)
      (Unassembled request) := by
  apply (askOr_only "graph" "object catalog unavailable").bind
  intro summaries _
  apply (askOr_only "graph" "object details unavailable").bind
  intro seeds _
  apply (askOr_only "graph" "object details unavailable").bind
  intro neighbors _
  apply (a.rankFor_only request tenant neighbors _).bind
  intro ranking _
  apply (ground_only request a.grounder tenant _ _).bind
  rintro found ⟨hfound, hreadable⟩
  apply Only.done
  refine ⟨⟨rfl, ?_, hfound⟩, hreadable⟩
  dsimp only

theorem adapt_only (context : Context) :
    (a.adapt context request tenant).Only
      (fun c => c.Answers request context.tenant ∧ Request.Readable request) (Unassembled request) := by
  unfold adapt
  apply (ground_only request a.grounder tenant _ _).bind
  rintro found ⟨hfound, hreadable⟩
  apply Only.done
  refine ⟨⟨rfl, ?_, hfound⟩, hreadable⟩
  dsimp only

variable {request} {tenant}

theorem serves_iff {context : Context} : serves context request = true ↔
    context.grounding.map (·.candidate) = (Request.terms request).values ∧
      context.intents = Request.intents request := by
  rw [serves, Bool.and_eq_true, beq_iff_eq, beq_iff_eq]

/-- What is assembled is for its request and tenant, and is what was held if it is not new. -/
theorem assemble_only (request : String) {held : Option Context} (h : ∀ c ∈ held, c.tenant = tenant) :
    (a.assemble held request tenant).Only
      (fun r => r.context.Answers request tenant ∧ ∀ c, r = .kept c → held = some c)
      (Unassembled request) := by
  unfold assemble
  split
  case h_1 context =>
    have htenant := h context rfl
    split
    case isTrue hserves =>
      obtain ⟨hvalues, hintents⟩ := serves_iff.mp hserves
      refine .done ⟨⟨htenant, hintents, hvalues⟩, fun c hc => ?_⟩
      cases hc
      rfl
    case isFalse =>
      apply (a.adapt_only request tenant context).bind
      rw [htenant]
      exact fun c hc => .done ⟨hc.1, fun _ hkept => by cases hkept⟩
  case h_2 =>
    apply (a.build_only request tenant).bind
    exact fun c hc => .done ⟨hc.1, fun _ hkept => by cases hkept⟩

/-- Only collaborators and values keep a context from being assembled, and values that cannot be read
always do, unless what is held serves the request. -/
theorem assemble_failures (request : String) (tenant : Tenant) (held : Option Context) :
    (a.assemble held request tenant).Only
      (fun _ => Request.Readable request ∨ ∃ c ∈ held, serves c request = true) (Unassembled request) := by
  unfold assemble
  split
  case h_1 context =>
    split
    case isTrue hserves => exact .done (.inr ⟨context, rfl, hserves⟩)
    case isFalse => exact (a.adapt_only request tenant _).bind fun _ hc => .done (.inl hc.2)
  case h_2 => exact (a.build_only request tenant).bind fun _ hc => .done (.inl hc.2)

end Assembler

inductive Turn (σ : Type) where
  | assemble (expires : Option Float) (request : String) (tenant : Tenant)
  | schemaChanged (tenant : Tenant)
  /-- time passes, or collaborators change -/
  | elsewhere (change : Clocked σ → Clocked σ)

namespace Assembler

variable (w : World σ) (a : Assembler) (policy : CachePolicy Float)

def turn (s : ContextCache × Clocked σ) : Turn σ → ContextCache × Clocked σ
  | .assemble expires request tenant =>
    let ((_, cache), clock) := ((a.obtain w policy expires request tenant).run s.1).run s.2
    (cache, clock)
  | .schemaChanged tenant => (s.1.invalidate tenant, s.2)
  | .elsewhere change => (s.1, change s.2)

/-- What is kept, and the clock with the collaborators, after some turns that begin with nothing kept. -/
def turns (start : Clocked σ) (ts : List (Turn σ)) : ContextCache × Clocked σ :=
  ts.foldl (turn w a policy) ([], start)

def Owned (cache : ContextCache) : Prop :=
  ∀ tenant, ∀ e ∈ cache.entries tenant, e.content.tenant = tenant

variable {w a policy} {cache : ContextCache} {expires : Option Float} {request : String} {tenant : Tenant}

theorem owned_iff : Owned cache ↔ cache.Every fun tenant c => c.tenant = tenant :=
  Iff.rfl

theorem owned_nil : Owned [] :=
  owned_iff.mpr Cache.every_nil

theorem Owned.get (h : Owned cache) (now : Float) (request : String) (tenant : Tenant) :
    Owned (cache.get policy now request tenant).2 :=
  owned_iff.mpr ((owned_iff.mp h).get now request tenant)

theorem Owned.put (h : Owned cache) (now : Float) (request : String) {context : Context}
    (hcontext : context.tenant = tenant) : Owned (cache.put policy now request context tenant) :=
  owned_iff.mpr ((owned_iff.mp h).put now request hcontext)

theorem Owned.invalidate (h : Owned cache) (tenant : Tenant) : Owned (cache.invalidate tenant) :=
  owned_iff.mpr ((owned_iff.mp h).invalidate tenant)

structure Repeatable (policy : CachePolicy Float) (cache : ContextCache) (request : String) (tenant : Tenant)
    (context : Context) : Prop where
  kept : 1 ≤ policy.capacity → ∃ e, (cache.entries tenant).getLast? = some e
  foremost : ∀ e, (cache.entries tenant).getLast? = some e →
    Cache.Foremost policy request (cache.entries tenant) e ∧ e.content = context

theorem repeatable_get {now : Float} {context : Context}
    (h : (cache.get policy now request tenant).1 = some context) :
    Repeatable policy (cache.get policy now request tenant).2 request tenant context := by
  obtain ⟨e, hforemost, hcontent⟩ := Cache.foremost_of_get h
  refine ⟨fun _ => ⟨e, hforemost.getLast?⟩, fun f hf => ?_⟩
  obtain rfl := Option.some.inj (hforemost.getLast?.symm.trans hf)
  exact ⟨hforemost, hcontent⟩

theorem repeatable_put {now : Float} {context : Context} :
    Repeatable policy (cache.put policy now request context tenant) request tenant context := by
  refine ⟨fun hcap => ?_, fun e he => Cache.foremost_of_put he⟩
  have hlast := Cache.mem_trimTo_last hcap (Cache.without (plainRequest request) (cache.entries tenant))
    ⟨plainRequest request, keptTerms request, context, now⟩
  rw [← Cache.entries_put_self] at hlast
  exact ⟨_, List.getLast?_eq_some_getLast (List.ne_nil_of_mem hlast)⟩

/-- What a call leaves: contexts of each tenant's own, and if it returns one, this one for requests to
come. -/
structure Left (policy : CachePolicy Float) (request : String) (tenant : Tenant) (ending : Ending Assembled)
    (cache : ContextCache) : Prop where
  owned : Owned cache
  returned : ending.Only
    (fun r => r.context.Answers request tenant ∧ Repeatable policy cache request tenant r.context)
    (Unassembled request)

/-- A call looks for a context that is kept, assembles one with what it finds, and keeps that. -/
theorem obtain_run (w : World σ) (a : Assembler) (policy : CachePolicy Float) (expires : Option Float)
    (request : String) (tenant : Tenant) (cache : ContextCache) (x : Clocked σ) :
    ((a.obtain w policy expires request tenant).run cache).run x =
      let looked := cache.get policy (Clocked.read.run x).1 request tenant
      let carried := ((a.assemble looked.1 request tenant).run w expires).run (Clocked.read.run x).2
      ((keepMade policy request tenant carried.1).run looked.2).run carried.2 :=
  rfl

theorem keepMade_left {ending : Ending Assembled} {held : Option Context} (h : Owned cache)
    (hending : ending.Only (fun r => r.context.Answers request tenant ∧ ∀ c, r = .kept c → held = some c)
      (Unassembled request))
    (hheld : ∀ c, held = some c → Repeatable policy cache request tenant c) (y : Clocked σ) :
    Left policy request tenant
      (((keepMade policy request tenant ending).run cache).run y).1.1
      (((keepMade policy request tenant ending).run cache).run y).1.2 := by
  cases ending with
  | done r =>
    obtain ⟨hanswers, hkept⟩ := hending
    cases r with
    | kept c => exact ⟨h, hanswers, hheld c (hkept c rfl)⟩
    | made c => exact ⟨h.put _ request hanswers.tenant, hanswers, repeatable_put⟩
  | failed f => exact ⟨h, hending⟩
  | expired => exact ⟨h, trivial⟩

theorem obtain_left (h : Owned cache) (x : Clocked σ) :
    Left policy request tenant (((a.obtain w policy expires request tenant).run cache).run x).1.1
      (((a.obtain w policy expires request tenant).run cache).run x).1.2 := by
  have hheld : ∀ c ∈ (cache.get policy (Clocked.read.run x).1 request tenant).1, c.tenant = tenant := by
    intro c hc
    obtain ⟨e, he, rfl⟩ := Cache.exists_entry_of_get hc
    exact h tenant e he
  have hending := (a.assemble_only request hheld).run w expires (Clocked.read.run x).2
  rw [obtain_run]
  exact keepMade_left (h.get _ request tenant) hending (fun c hc => repeatable_get hc) _

/-- Only collaborators and values keep a call from returning, and values that cannot be read always do,
unless something that is kept serves the request. -/
theorem obtain_failures (x : Clocked σ) : Ending.Only
    (fun _ => Request.Readable request ∨ ∃ e ∈ cache.entries tenant, serves e.content request = true)
    (Unassembled request) (((a.obtain w policy expires request tenant).run cache).run x).1.1 := by
  have hkeep : ∀ (P : Prop) (ending : Ending Assembled) kept (y : Clocked σ),
      ending.Only (fun _ => P) (Unassembled request) → Ending.Only (fun _ => P) (Unassembled request)
        (((keepMade policy request tenant ending).run kept).run y).1.1 := by
    intro P ending kept y h
    cases ending with
    | done r => cases r <;> exact h
    | failed f => exact h
    | expired => trivial
  rw [obtain_run]
  refine hkeep _ _ _ _ (((a.assemble_failures request tenant _).run w expires _).weaken ?_ fun _ h => h)
  rintro _ (hreadable | ⟨c, hc, hserves⟩)
  · exact .inl hreadable
  · obtain ⟨e, he, rfl⟩ := Cache.exists_entry_of_get hc
    exact .inr ⟨e, he, hserves⟩

theorem turn_owned {s : ContextCache × Clocked σ} (h : Owned s.1) (t : Turn σ) :
    Owned (turn w a policy s t).1 := by
  cases t with
  | assemble expires request tenant => exact (obtain_left h s.2).owned
  | schemaChanged tenant => exact h.invalidate tenant
  | elsewhere change => exact h

theorem turns_owned (start : Clocked σ) (ts : List (Turn σ)) : Owned (turns w a policy start ts).1 := by
  induction ts using List.reverseRecOn with
  | nil => exact owned_nil
  | append_singleton ts t ih =>
    unfold turns at ih ⊢
    rw [List.foldl_append]
    exact turn_owned ih t

/-- A call that finds the context that it needs returns it, and asks no question. -/
theorem obtain_kept {x : Clocked σ} {context : Context}
    (hheld : (cache.get policy (Clocked.read.run x).1 request tenant).1 = some context)
    (hserves : serves context request = true) :
    ((a.obtain w policy expires request tenant).run cache).run x =
      ((.done (.kept context), (cache.get policy (Clocked.read.run x).1 request tenant).2),
        (Clocked.read.run x).2) := by
  have hassemble : a.assemble (cache.get policy (Clocked.read.run x).1 request tenant).1 request tenant =
      .done (.kept context) := by
    rw [hheld, assemble]
    exact if_pos hserves
  rw [obtain_run]
  dsimp only
  rw [hassemble]
  rfl

/-- A context that is returned after any turns is one for its tenant and its own request. When the
request comes again, the entry that was used last is found as long as it is not too old; then this very
context is returned, whatever collaborators would answer now, and nobody is asked. -/
theorem obtained_answers (start : Clocked σ) (ts : List (Turn σ)) (expires : Option Float) (request : String)
    (tenant : Tenant) (x : Clocked σ) {assembled : Assembled} {kept : ContextCache} {y : Clocked σ}
    (h : ((a.obtain w policy expires request tenant).run (turns w a policy start ts).1).run x =
      ((.done assembled, kept), y)) :
    assembled.context.Answers request tenant ∧
      (1 ≤ policy.capacity → ∃ e, (kept.entries tenant).getLast? = some e) ∧
      ∀ e, (kept.entries tenant).getLast? = some e → e.content = assembled.context ∧
        ∀ (w' : World σ) (expires' : Option Float) (z : Clocked σ),
          ¬policy.lifetime < (Clocked.read.run z).1 - e.created →
          ∃ kept', ((a.obtain w' policy expires' request tenant).run kept).run z =
            ((.done (.kept assembled.context), kept'), (Clocked.read.run z).2) := by
  have hleft : Left policy request tenant
      (((a.obtain w policy expires request tenant).run (turns w a policy start ts).1).run x).1.1
      (((a.obtain w policy expires request tenant).run (turns w a policy start ts).1).run x).1.2 :=
    obtain_left (turns_owned start ts) x
  rw [h] at hleft
  obtain ⟨-, hanswers, hrepeat⟩ := hleft
  refine ⟨hanswers, hrepeat.kept, fun e he => ?_⟩
  obtain ⟨hforemost, hcontent⟩ := hrepeat.foremost e he
  refine ⟨hcontent, ?_⟩
  intro w' expires' z hfresh
  have hheld := Cache.get_of_foremost hforemost hfresh
  rw [hcontent] at hheld
  exact ⟨_, obtain_kept hheld (serves_iff.mpr ⟨hanswers.values, hanswers.intents⟩)⟩

def loosely : CachePolicy Float :=
  ⟨300.0, 100, 0.3⟩

def secondCall : (Ending Assembled × ContextCache) × Clocked Rehearsal :=
  ((({} : Assembler).obtain Rehearsal.world loosely none "high deals" none).run
    (turns Rehearsal.world {} loosely { state := {} } [.assemble none "low deals" none]).1).run { state := {} }

def made? : Ending Assembled → Option Context
  | .done (.made c) => some c
  | _ => none

theorem eq_of_made? {ending : Ending Assembled} {c : Context} (h : made? ending = some c) :
    ending = .done (.made c) := by
  unfold made? at h
  split at h
  · cases h
    rfl
  · cases h

/-- The value is that of the second request. -/
theorem obtained_answers_high : ∃ c kept y, secondCall = ((.done (.made c), kept), y) ∧
    c.grounding.map (·.candidate) = ["High"] ∧ c.Answers "high deals" none ∧
    ∀ e, (kept.entries none).getLast? = some e → e.content = c := by
  have hvalues : (made? secondCall.1.1).map (·.grounding.map (·.candidate)) = some ["High"] := by
    decide +kernel
  obtain ⟨c, hmade, hhigh⟩ := Option.map_eq_some_iff.mp hvalues
  have hcall : secondCall = ((.done (.made c), secondCall.1.2), secondCall.2) := by
    rw [← eq_of_made? hmade]
  refine ⟨c, _, _, hcall, hhigh, ?_⟩
  have hreturned := @obtained_answers Rehearsal Rehearsal.world {} loosely { state := {} }
    [.assemble none "low deals" none] none "high deals" none { state := {} } (.made c)
    secondCall.1.2 secondCall.2
  obtain ⟨hanswers, -, hkept⟩ := hreturned hcall
  exact ⟨hanswers, fun e he => (hkept e he).1⟩

end Assembler

end Soql
