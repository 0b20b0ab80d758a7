import Mathlib.Algebra.Ring.Int.Defs
import Soql.Proofs.Compilation.Result

namespace Soql

open Repair

variable {σ : Type}

namespace Try

variable (t : Try)

def drafted : Nat × Query :=
  (t.attempt, t.query)

def repairs : List (Nat × Event) :=
  t.outcome.events.map fun e => (t.attempt, e)

end Try

def TimelineEntry.drafted : TimelineEntry → Option (Nat × Query)
  | .draft attempt text _ => (Query.parse text).toOption.map fun q => (attempt, q)
  | _ => none

def TimelineEntry.repaired : TimelineEntry → Option (Nat × Event)
  | .repair attempt event => some (attempt, event)
  | _ => none

theorem unread_iff {timeline : List TimelineEntry} :
    Unread timeline ↔ timeline.filterMap (·.drafted) = [] := by
  rw [List.filterMap_eq_nil_iff]
  constructor
  · intro h entry hentry
    cases entry with
    | draft attempt text errors =>
      obtain ⟨e, he⟩ := h attempt text errors hentry
      rw [TimelineEntry.drafted, he]
      rfl
    | _ => rfl
  · intro h attempt text errors hentry
    have hnone := h _ hentry
    cases hparse : Query.parse text with
    | error e => exact ⟨e, rfl⟩
    | ok q =>
      rw [TimelineEntry.drafted, hparse] at hnone
      cases hnone

def IsBest (outcomes : List Outcome) (best : Outcome) : Prop :=
  ∃ before after, outcomes = before ++ best :: after ∧
    (∀ o ∈ before, best.errors.length ≤ o.errors.length) ∧
    ∀ o ∈ after, best.errors.length < o.errors.length

theorem IsBest.singleton (o : Outcome) : IsBest [o] o :=
  ⟨[], [], rfl, by simp, by simp⟩

theorem IsBest.le {outcomes : List Outcome} {best : Outcome} (h : IsBest outcomes best) :
    ∀ o ∈ outcomes, best.errors.length ≤ o.errors.length := by
  obtain ⟨before, after, rfl, hbefore, hafter⟩ := h
  intro o ho
  rcases List.mem_append.mp ho with ho | ho
  · exact hbefore o ho
  · rcases List.mem_cons.mp ho with rfl | ho
    · exact Nat.le_refl _
    · exact Nat.le_of_lt (hafter o ho)

/-- The better of the best outcome and a later one is the best of them all. -/
theorem IsBest.better {outcomes : List Outcome} {best : Outcome} (h : IsBest outcomes best)
    (o : Outcome) : IsBest (outcomes ++ [o]) (Compilation.better (some best) o) := by
  simp only [Compilation.better]
  split
  next hfewer =>
    refine ⟨outcomes, [], rfl, ?_, by simp⟩
    intro other hother
    exact Nat.le_trans hfewer (h.le other hother)
  next hmore =>
    obtain ⟨before, after, rfl, hbefore, hafter⟩ := h
    refine ⟨before, after ++ [o], by simp, hbefore, ?_⟩
    intro other hother
    rcases List.mem_append.mp hother with hother | hother
    · exact hafter other hother
    · obtain rfl := List.mem_singleton.mp hother
      exact Nat.lt_of_not_le hmore

/-- What a timeline, a number of passes and some corrections are, given the drafts that were corrected
and those that were only read. -/
structure Accounts (tries : List Try) (pending : List (Nat × Query)) (timeline : List TimelineEntry)
    (passes : Int) (corrections : List String) : Prop where
  drafted : timeline.filterMap (·.drafted) = tries.map (·.drafted) ++ pending
  repaired : timeline.filterMap (·.repaired) = tries.flatMap (·.repairs)
  passes : passes = (tries.map fun t => t.outcome.passes).sum
  corrections : corrections = tries.flatMap fun t => t.outcome.corrections

structure Accounted (c : Compiler) (pending : List (Nat × Query)) (x : Compilation) : Prop where
  accounts : Accounts x.tries pending x.timeline x.passes x.corrections
  corrected : ∀ t ∈ x.tries, c.repaired t.query t.context = .ok t.outcome
  untried : x.best = none → x.tries = []
  isBest : ∀ best ∈ x.best, IsBest (x.tries.map (·.outcome)) best

/-- What holds of a result that was made of the best outcome, given what was known in the end. -/
structure SummedUp (c : Compiler) (x : Compilation) (r : Compiled) (pending : List (Nat × Query))
    (best : Outcome) (more : List Message) : Prop where
  accounts : Accounts x.tries pending r.timeline r.passes r.corrections
  corrected : ∀ t ∈ x.tries, c.repaired t.query t.context = .ok t.outcome
  isBest : IsBest (x.tries.map (·.outcome)) best
  query : r.query = some best.query.render
  diagnostics : r.diagnostics = best.diagnostics ++ more
  /-- only the last draft, and only for want of time, may not have been corrected -/
  pending : pending = [] ∨
    (∃ draft, pending = [draft]) ∧ ∃ reason, more = [complaint "deadline" reason]
  tolerant : r.tolerant = false

section

variable {c : Compiler} {tries : List Try} {pending : List (Nat × Query)} {x : Compilation}

theorem Accounts.note {timeline : List TimelineEntry} {passes : Int} {corrections : List String}
    (h : Accounts tries pending timeline passes corrections) {entry : TimelineEntry}
    (hdrafted : entry.drafted = none) (hrepaired : entry.repaired = none) :
    Accounts tries pending (timeline ++ [entry]) passes corrections := by
  refine ⟨?_, ?_, h.passes, h.corrections⟩
  · rw [List.filterMap_append, h.drafted, List.filterMap_cons_none hdrafted, List.filterMap_nil,
      List.append_nil]
  · rw [List.filterMap_append, h.repaired, List.filterMap_cons_none hrepaired, List.filterMap_nil,
      List.append_nil]

theorem Accounted.note (h : Accounted c pending x) {entry : TimelineEntry}
    (hdrafted : entry.drafted = none) (hrepaired : entry.repaired = none) :
    Accounted c pending (x.note entry) :=
  ⟨h.accounts.note hdrafted hrepaired, h.corrected, h.untried, h.isBest⟩

theorem Accounted.regenerate (h : Accounted c pending x) (reason : String) :
    Accounted c pending (x.regenerate reason) :=
  ⟨h.accounts.note rfl rfl, h.corrected, h.untried, h.isBest⟩

/-- A draft that is a query is noted before it is corrected. -/
theorem Accounted.draft (h : Accounted c [] x) (attempt : Nat)
    {text : String} {q : Query} (hq : Query.parse text = .ok q) (errors : List String) :
    Accounted c [(attempt, q)] (x.note (.draft attempt text errors)) := by
  have hentry : (TimelineEntry.draft attempt text errors).drafted = some (attempt, q) := by
    rw [TimelineEntry.drafted, hq]
    rfl
  refine ⟨⟨?_, ?_, h.accounts.passes, h.accounts.corrections⟩, h.corrected, h.untried, h.isBest⟩
  · change (x.timeline ++ [_]).filterMap _ = _
    rw [List.filterMap_append, h.accounts.drafted, List.append_nil, List.filterMap_cons_some hentry,
      List.filterMap_nil]
    rfl
  · change (x.timeline ++ [_]).filterMap _ = _
    rw [List.filterMap_append, h.accounts.repaired]
    exact List.append_nil _

theorem drafted_repair (attempt : Nat) (events : List Event) :
    (events.map (TimelineEntry.repair attempt)).filterMap (·.drafted) = [] := by
  rw [List.filterMap_eq_nil_iff]
  intro entry hentry
  obtain ⟨event, -, rfl⟩ := List.mem_map.mp hentry
  rfl

theorem repaired_repair (attempt : Nat) (events : List Event) :
    (events.map (TimelineEntry.repair attempt)).filterMap (·.repaired) =
      events.map fun e => (attempt, e) := by
  rw [List.filterMap_map]
  exact congrFun List.filterMap_eq_map _

/-- What a draft's outcome adds to the accounts. -/
theorem Accounts.record {t : Try} {timeline : List TimelineEntry} {passes : Int}
    {corrections : List String}
    (h : Accounts tries [(t.attempt, t.query)] timeline passes corrections) :
    Accounts (tries ++ [t]) []
      (timeline ++ t.outcome.events.map (TimelineEntry.repair t.attempt))
      (passes + t.outcome.passes) (corrections ++ t.outcome.corrections) := by
  refine ⟨?_, ?_, ?_, ?_⟩
  · rw [List.filterMap_append, h.drafted, drafted_repair, List.append_nil, List.append_nil,
      List.map_append]
    rfl
  · rw [List.filterMap_append, h.repaired, repaired_repair, List.flatMap_append,
      List.flatMap_singleton]
    rfl
  · rw [h.passes, List.map_append, List.sum_append, List.map_singleton, List.sum_singleton]
  · rw [h.corrections, List.flatMap_append, List.flatMap_singleton]

/-- A draft that is corrected is counted in. -/
theorem Accounted.record {t : Try} (h : Accounted c [(t.attempt, t.query)] x)
    (ht : c.repaired t.query t.context = .ok t.outcome) : Accounted c [] (x.record t) := by
  refine ⟨h.accounts.record, ?_, ?_, ?_⟩
  · intro t' ht'
    rcases List.mem_append.mp ht' with ht' | ht'
    · exact h.corrected t' ht'
    · obtain rfl := List.mem_singleton.mp ht'
      exact ht
  · intro hnone
    cases hnone
  · intro best hbest
    obtain rfl : Compilation.better x.best t.outcome = best := Option.some.inj hbest
    -- The new outcome is held against the best of those before it.
    change IsBest ((x.tries ++ [t]).map _) _
    rw [List.map_append, List.map_singleton]
    cases hx : x.best with
    | none =>
      rw [h.untried hx]
      exact IsBest.singleton _
    | some b => exact (h.isBest b hx).better _

/-- A result that is made of the best outcome sums up the drafts. -/
theorem Accounted.summedUp (h : Accounted c pending x) {best : Outcome}
    (hbest : x.best = some best) {more : List Message}
    (hpending : pending = [] ∨
      (∃ draft, pending = [draft]) ∧ ∃ reason, more = [complaint "deadline" reason]) :
    SummedUp c x (x.degraded more) pending best more := by
  have hresult : x.degraded more =
      x.result .degraded (some best.query.render) (best.diagnostics ++ more) false := by
    rw [Compilation.degraded, hbest]
  rw [hresult]
  exact ⟨h.accounts.note rfl rfl, h.corrected, h.isBest best hbest, rfl, rfl, hpending, rfl⟩

end

def Accountable (c : Compiler) (r : Compiled) (x : Compilation) (_ : Nat) : Prop :=
  r.status = .degraded → ¬Unread r.timeline → ∃ pending best more, SummedUp c x r pending best more

section

variable {c : Compiler} {pending : List (Nat × Query)} {x : Compilation} {n : Nat}

theorem accountable_of_ne {r : Compiled} (h : r.status ≠ .degraded) : Accountable c r x n :=
  fun hdegraded => absurd hdegraded h

/-- Where no draft was corrected, there is no outcome that a result is made of. -/
theorem Accounted.degraded (h : Accounted c pending x) {more : List Message}
    (hpending : pending = [] ∨
      (∃ draft, pending = [draft]) ∧ ∃ reason, more = [complaint "deadline" reason]) :
    Accountable c (x.degraded more) x n := by
  cases hbest : x.best with
  | none =>
    apply accountable_of_ne
    rw [Compilation.degraded, hbest]
    exact Verdict.noConfusion
  | some best => exact fun _ _ => ⟨_, _, _, h.summedUp hbest hpending⟩

/-- A result that is made up was not made of a draft that was read. -/
theorem Accounted.madeUp (h : Accounted c [] x) (hbest : x.best = none)
    (context : Context) (text : String) (complaints : List Message) :
    Accountable c (c.madeUp x context text complaints) x n := by
  unfold Compiler.madeUp
  split
  · exact accountable_of_ne Verdict.noConfusion
  · intro _ hread
    refine absurd (unread_iff.mpr ?_) hread
    change (x.timeline ++ [_]).filterMap _ = []
    rw [List.filterMap_append, h.accounts.drafted, h.untried hbest]
    rfl

end

def Drafting (c : Compiler) : Known :=
  fun x _ => Accounted c [] x

/-- What is known where a compilation stopped: one draft at most was not corrected. -/
def Stopping (c : Compiler) : Known :=
  fun x _ => ∃ pending, Accounted c pending x ∧ (pending = [] ∨ ∃ draft, pending = [draft])

section

variable {w : World σ} {c : Compiler} {request : String} {tenant : Tenant} {expires : Float}
  {again : Compiler.Again (σ × Nat)} {context : Context} {k n : Nat} {x : Compilation}

theorem Drafting.later (h : Known.after k (Drafting c) x n) : Drafting c x n := by
  obtain ⟨m, h, -⟩ := h
  exact h

theorem Drafting.stopping (h : Drafting c x n) : Stopping c x n :=
  ⟨[], h, .inl rfl⟩

/-- A compilation that stopped is accounted for where that is a result. -/
theorem Stopping.ended (h : Stopping c x n) {f : Failure} {r : Compiled}
    (hr : Compiler.ended x (.error f) = .ok r) : Accountable c r x n := by
  obtain ⟨pending, h, hpending⟩ := h
  cases f with
  | late reason =>
    cases hr
    exact h.degraded (hpending.imp_right fun hdraft => ⟨hdraft, reason, rfl⟩)
  | unreachable capability reason =>
    cases hr
    exact accountable_of_ne Verdict.noConfusion
  | _ => cases hr

theorem endTolerantly_accounts (text : String) (complaints : List Message) :
    Ensures (Drafting c)
      (Compiler.endTolerantly w.counted c expires tenant context text complaints)
      (Accountable c) (Stopping c) := by
  unfold Compiler.endTolerantly
  apply Ensures.known_bind
  intro sofar
  apply Ensures.ite
  · intro _
    apply Ensures.pure
    rintro _ n ⟨rfl, h⟩
    exact h.degraded (.inl rfl)
  · intro hnone
    have hbest : sofar.best = none := by simpa using hnone
    -- Without an outcome the query is made up, whether or not its context can be completed.
    have hmade : ∀ context : Context, Ensures (fun x n => x = sofar ∧ Drafting c x n)
        (pure (c.madeUp sofar context text complaints) : CompileM (σ × Nat) Compiled)
        (Accountable c) (Stopping c) := by
      intro context
      apply Ensures.pure
      rintro x n ⟨rfl, h⟩
      exact h.madeUp hbest context text complaints
    have hkeep : Ensures (fun x n => x = sofar ∧ Drafting c x n)
        (pure context : CompileM (σ × Nat) Context)
        (fun _ x n => x = sofar ∧ Drafting c x n) (Stopping c) := Ensures.pure fun x n h => h
    have hhydrated : ∀ q, Ensures (fun x n => x = sofar ∧ Drafting c x n)
        (Compiler.hydrated w.counted expires q context tenant)
        (fun _ x n => x = sofar ∧ Drafting c x n) (Stopping c) := by
      intro q
      apply Ensures.weaken (hydrated_ensures ?_)
      · rintro _ x n ⟨m, h, -⟩
        exact h
      · rintro x n ⟨m, ⟨-, h⟩, -⟩
        exact h.stopping
    dsimp only
    split
    · apply Ensures.ite
      · exact fun _ => (hhydrated _).bind hmade
      · exact fun _ => hkeep.bind hmade
    · exact hkeep.bind hmade

def AccountsOn (c : Compiler) (again : Compiler.Again (σ × Nat)) : Prop :=
  ∀ next ∈ again, ∀ context feedback,
    Ensures (Drafting c) (next context feedback) (Accountable c) (Stopping c)

theorem fromUnread_accounts (hagain : AccountsOn c again) {text : String} {e : ParseError}
    (he : Query.parse text = .error e) :
    Ensures (Drafting c) (Compiler.fromUnread w.counted c expires tenant again context text e)
      (Accountable c) (Stopping c) := by
  unfold Compiler.fromUnread
  apply Ensures.known_bind
  intro sofar
  apply Ensures.change_bind (Q := Drafting c)
  · rintro x n ⟨rfl, h⟩
    apply h.note _ rfl
    rw [TimelineEntry.drafted, he]
    rfl
  cases again with
  | none => exact endTolerantly_accounts text _
  | some next =>
    apply Ensures.change_bind _ (hagain next rfl _ _)
    intro x n h
    exact h.regenerate _

theorem fromQuery_accounts (hagain : AccountsOn c again) {text : String} {q : Query}
    (hq : Query.parse text = .ok q) :
    Ensures (Drafting c) (Compiler.fromQuery w.counted c expires tenant again context text q)
      (Accountable c) (Stopping c) := by
  unfold Compiler.fromQuery
  apply Ensures.known_bind
  intro sofar
  apply Ensures.change_bind (Q := fun x _ => Accounted c [(x.regenerations, q)] x)
  · rintro x n ⟨rfl, h⟩
    exact h.draft x.regenerations hq _
  -- Until its context is complete the draft is pending: running out of time here leaves it uncorrected.
  have hhydrated : Ensures (fun x _ => Accounted c [(x.regenerations, q)] x)
      (Compiler.hydrated w.counted expires q context tenant)
      (fun _ x n => Known.after 0 (fun x _ => Accounted c [(x.regenerations, q)] x) x n)
      (Stopping c) := by
    apply hydrated_ensures
    rintro x n ⟨m, h, -⟩
    exact ⟨_, h, .inr ⟨_, rfl⟩⟩
  apply hhydrated.bind
  intro context'
  cases ho : c.repaired q context' with
  | error f =>
    apply Ensures.throw
    rintro x n ⟨m, h, -⟩
    exact ⟨_, h, .inr ⟨_, rfl⟩⟩
  | ok o =>
    dsimp only
    apply Ensures.change_bind (Q := Drafting c)
    · rintro x n ⟨m, h, -⟩
      exact h.record (t := ⟨x.regenerations, q, context', o⟩) ho
    apply Ensures.ite
    · intro _
      apply Ensures.known_bind
      intro sofar
      exact Ensures.pure fun x n _ => accountable_of_ne Verdict.noConfusion
    · intro _
      cases again with
      | none =>
        apply Ensures.change_bind (Q := Drafting c) fun x n h => h.note rfl rfl
        apply Ensures.known_bind
        intro sofar
        apply Ensures.pure
        rintro x n ⟨rfl, h⟩
        exact h.degraded (.inl rfl)
      | some next =>
        apply Ensures.change_bind _ (hagain next rfl _ _)
        intro x n h
        exact h.regenerate _

theorem draftThen_accounts (hagain : AccountsOn c again) (plan : Plan) (feedback : List String) :
    Ensures (Drafting c)
      (Compiler.draftThen w.counted c expires tenant request plan again context feedback)
      (Accountable c) (Stopping c) := by
  unfold Compiler.draftThen
  have hdraft : Ensures (Drafting c)
      (Compiler.talk w.counted expires c.completionTime (Draft.make request plan context feedback))
      (fun _ => Drafting c) (Stopping c) := by
    apply Ensures.weaken (talk_ensures (fun e => draft_adds w (some e) request plan context feedback) _)
    · exact fun _ _ _ h => Drafting.later h
    · exact fun _ _ h => (Drafting.later h).stopping
  apply hdraft.bind
  intro draft
  split
  · exact Ensures.throw fun x n h => h.stopping
  · exact fromUnread_accounts hagain ‹_›
  · exact fromQuery_accounts hagain ‹_›

/-- By induction on how many further drafts may be asked for. -/
theorem drafts_accounts {left : Nat} (plan : Plan) (feedback : List String) :
    Ensures (Drafting c)
      (Compiler.drafts w.counted c expires tenant request plan left context feedback)
      (Accountable c) (Stopping c) := by
  induction left generalizing context feedback with
  | zero =>
    apply draftThen_accounts
    intro next hnext
    cases hnext
  | succ left ih =>
    apply draftThen_accounts
    rintro _ ⟨⟩ context feedback
    exact ih feedback

theorem planThen_accounts (now : Moment) :
    Ensures (Drafting c) (Compiler.planThen w.counted c now request tenant expires context)
      (Accountable c) (Stopping c) := by
  unfold Compiler.planThen
  apply Ensures.change_bind (Q := Drafting c) fun _ _ h => h.note rfl rfl
  have hlog : Ensures (Drafting c)
      (CompileM.inSession (Compiler.startLog now request tenant context) : CompileM (σ × Nat) Unit)
      (fun _ => Drafting c) (Stopping c) :=
    (Ensures.inSession (startLog_adds now request tenant context)).weaken fun _ _ _ h => Drafting.later h
  apply hlog.bind
  intro _
  have hplan : Ensures (Drafting c)
      (Compiler.talk w.counted expires c.completionTime (Plan.make request context))
      (fun _ => Drafting c) (Stopping c) := by
    apply Ensures.weaken (quiet_ensures (Quiet.plan request context) _)
    · exact fun _ _ _ h => Drafting.later h
    · exact fun _ _ h => (Drafting.later h).stopping
  apply hplan.bind
  intro plan
  apply Ensures.change_bind (Q := Drafting c) fun x n h => { h with }
  apply Ensures.change_bind (Q := Drafting c) fun _ _ h => h.note rfl rfl
  cases plan with
  | error e =>
    apply Ensures.known_bind
    intro sofar
    exact Ensures.pure fun x n _ => accountable_of_ne Verdict.noConfusion
  | ok plan => exact drafts_accounts plan []

theorem steps_accounts (now : Moment) :
    Ensures (Drafting c) (Compiler.steps w.counted c now request tenant expires)
      (Accountable c) (Stopping c) := by
  unfold Compiler.steps
  have hobtain : Ensures (Drafting c)
      (Compiler.bounded expires none fun expires =>
        Session.onCache (c.assembler.obtain w.counted c.policy (some expires) request tenant))
      (fun _ => Drafting c) (Stopping c) := by
    apply Ensures.weaken (bounded_ensures
      (fun e => onCache_adds (obtain_adds w c.assembler c.policy (some e) request tenant)) _)
    · exact fun _ _ _ h => Drafting.later h
    · exact fun _ _ h => (Drafting.later h).stopping
  exact hobtain.bind fun _ => planThen_accounts now

end

namespace Compiler

variable (w : World σ) (c : Compiler) (now : Moment) (request : String) (tenant : Tenant)
  (deadline : Option Float)

/-- A compilation that ends without a valid query, though some draft was read, is left with the best
outcome of all drafts, of several the last, and has counted the passes and corrections of each. -/
theorem compile_best {s : Session σ} {r : Compiled}
    (h : ((compile w c now request tenant deadline).run s).1 = .ok r) (hdegraded : r.status = .degraded)
    (hread : ¬Unread r.timeline) : ∃ pending best more,
      SummedUp c (atEnd w c now request tenant deadline s) r pending best more := by
  -- Counting the calls changes neither the result nor what is known in the end.
  have hprojects := compile_projects w c now request tenant deadline w.counted_refines (s.counting 0)
  have hcounted : ((compile w.counted c now request tenant deadline).run (s.counting 0)).1 = .ok r :=
    (congrArg Prod.fst hprojects).trans h
  have hend : atEnd w.counted c now request tenant deadline (s.counting 0) =
      atEnd w c now request tenant deadline s :=
    atEnd_projects w c now request tenant deadline w.counted_refines (s.counting 0)
  have hstart : Drafting c { request } 0 := ⟨⟨rfl, rfl, rfl, rfl⟩, by simp, fun _ => rfl, by simp⟩
  have hsteps : LeftAs (Accountable c) (Stopping c)
      ((steps w.counted c now request tenant (deadlineOf c deadline (s.counting 0))).run.run
        { session := begun (s.counting 0), compilation := { request } }) :=
    (steps_accounts now).run _ hstart
  rw [compile_run] at hcounted
  replace hcounted := conclude_ok c now request hcounted
  have haccountable : Accountable c r (atEnd w c now request tenant deadline s) 0 := by
    rw [← hend]
    unfold atEnd
    cases hrun : (steps w.counted c now request tenant (deadlineOf c deadline (s.counting 0))).run.run
        { session := begun (s.counting 0), compilation := { request } } with
    | mk result reached =>
      rw [hrun] at hsteps hcounted
      -- The steps came to the result themselves, or a failure of theirs is one.
      cases result with
      | ok r' =>
        cases hcounted
        exact hsteps
      | error f => exact Stopping.ended hsteps hcounted
  exact haccountable hdegraded hread

/-- Models that plan for one object, and draft two queries with errors and then what is no query. -/
def faltering : Rehearsal where
  plan := .answered "\x7b\"summary\": \"all\", \"relevant_tables\": [\"A\"]\x7d"
  drafts := [.answered "SELECT N, COUNT(Id) FROM A", .answered "SELECT Id FROM A", .answered "SELECT FROM"]

theorem compile_best_faltering : ∃ r,
    ((compile Rehearsal.world {} default "all" none none).run { clock := { state := faltering } }).1 =
      .ok r ∧ r.status = .degraded ∧ ¬Unread r.timeline ∧ r.query = some "SELECT Id FROM A" ∧
    ∃ pending best more, SummedUp {}
      (atEnd Rehearsal.world {} default "all" none none { clock := { state := faltering } }) r pending best
      more := by
  obtain ⟨r, hr, hall⟩ := Query.exists_ok_of_any
    (r := ((compile Rehearsal.world {} default "all" none none).run
      { clock := { state := faltering } }).1)
    (p := fun r => r.status == .degraded && r.query == some "SELECT Id FROM A" &&
      !(r.timeline.filterMap (·.drafted)).isEmpty) (by decide +kernel)
  rw [Bool.and_eq_true, Bool.and_eq_true, beq_iff_eq, beq_iff_eq, Bool.not_eq_true'] at hall
  obtain ⟨⟨hdegraded, hquery⟩, hdrafted⟩ := hall
  have hread : ¬Unread r.timeline := by
    rw [unread_iff]
    intro hnone
    rw [hnone] at hdrafted
    cases hdrafted
  exact ⟨r, hr, hdegraded, hread, hquery,
    compile_best Rehearsal.world {} default "all" none none hr hdegraded hread⟩

end Compiler

end Soql
