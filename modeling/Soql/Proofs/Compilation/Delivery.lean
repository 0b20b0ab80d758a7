import Soql.Proofs.Compilation.Drafting

namespace Soql

open Repair

variable {σ : Type}

theorem Unread.append {timeline : List TimelineEntry} (h : Unread timeline) {entry : TimelineEntry}
    (hentry : ∀ attempt text errors, entry = .draft attempt text errors →
      ∃ e, Query.parse text = .error e) : Unread (timeline ++ [entry]) := by
  intro attempt text errors hmem
  rcases List.mem_append.mp hmem with hmem | hmem
  · exact h attempt text errors hmem
  · exact hentry attempt text errors (List.mem_singleton.mp hmem).symm

section

variable {c : Compiler} {left asked passes k m n : Nat} {x : Compilation}

theorem Going.later (h : Going c left asked passes x m) (hn : n ≤ m + k) :
    Going c left (asked + k) passes x n := by
  refine { h with asked := ?_ }
  have := h.asked
  omega

theorem AtDraft.later (h : Known.after k (AtDraft c left asked) x n) :
    AtDraft c left (asked + k) x n := by
  obtain ⟨m, h, hn⟩ := h
  exact ⟨h.going.later hn, h.wrong, h.drafts, h.unread⟩

theorem Noted.later (h : Known.after 0 (Noted c left) x n) : Noted c left x n := by
  obtain ⟨m, h, hn⟩ := h
  exact ⟨h.going.later hn, h.wrong, h.drafts⟩

theorem AtDraft.halted (h : AtDraft c left asked x n) (hmax : 0 ≤ c.bounds.maxPasses)
    (hasked : asked ≤ 1) : Halted c x n :=
  ⟨left, h.going.mono hmax hasked (Nat.zero_le 1), h.wrong⟩

theorem Noted.halted (h : Noted c left x n) (hmax : 0 ≤ c.bounds.maxPasses) : Halted c x n :=
  ⟨left, h.going.mono hmax (Nat.le_refl 1) (Nat.zero_le 1), h.wrong⟩

theorem AtDraft.noted (h : AtDraft c left 1 x n) (attempt : Nat) (text : String)
    (errors : List String) : Noted c left (x.note (.draft attempt text errors)) n := by
  refine ⟨h.going.note rfl, h.wrong, ?_⟩
  change (x.timeline ++ [_]).countP _ = x.regenerations + 1
  rw [List.countP_append, h.drafts]
  rfl

/-- An entry on no draft is noted. -/
theorem AtDraft.note {asked : Nat} {x : Compilation} {n : Nat} (h : AtDraft c left asked x n)
    {entry : TimelineEntry} (hfinal : entry.isFinal = false) (hdraft : entry.isDraft = false) :
    AtDraft c left asked (x.note entry) n := by
  refine ⟨h.going.note hfinal, h.wrong, ?_, fun hbest => (h.unread hbest).append ?_⟩
  · change (x.timeline ++ [_]).countP _ = x.regenerations
    rw [List.countP_append, h.drafts, List.countP_eq_zero.mpr]
    · rfl
    intro e he
    obtain rfl := List.mem_singleton.mp he
    simp [hdraft]
  · rintro attempt text errors rfl
    cases hdraft

theorem Going.regenerate (h : Going c (left + 1) 1 1 x n) (reason : String) :
    Going c left 0 0 (x.regenerate reason) n := by
  have hbudget := h.budget
  have hasked := h.asked
  refine ⟨?_, ?_, h.passes, ?_, ⟩
  · change x.regenerations + 1 + left = _
    omega
  · exact hasked
  · intro entry hentry
    rcases List.mem_append.mp hentry with hentry | hentry
    · exact h.unfinished entry hentry
    · obtain rfl := List.mem_singleton.mp hentry
      rfl

theorem countP_regenerate (reason : String) :
    (x.regenerate reason).timeline.countP (·.isDraft) = x.timeline.countP (·.isDraft) := by
  change (x.timeline ++ [_]).countP _ = _
  rw [List.countP_append]
  rfl

theorem Noted.regenerate (h : Noted c (left + 1) x n) (hmax : 0 ≤ c.bounds.maxPasses)
    (hunread : x.best = none → Unread x.timeline) (reason : String) :
    AtDraft c left 0 (x.regenerate reason) n := by
  refine ⟨(h.going.mono hmax (Nat.le_refl 1) (Nat.zero_le 1)).regenerate reason, h.wrong, ?_, ?_⟩
  · rw [countP_regenerate]
    exact h.drafts
  · intro hbest
    apply (hunread hbest).append
    intro attempt text errors heq
    cases heq

theorem Recorded.regenerate (h : Recorded c (left + 1) x n) (hwrong : Wrong x) (reason : String) :
    AtDraft c left 0 (x.regenerate reason) n := by
  refine ⟨h.going.regenerate reason, hwrong, ?_, fun hbest => absurd hbest h.best⟩
  rw [countP_regenerate]
  exact h.drafts

theorem Noted.record (h : Noted c left x n) {t : Try} (ht : t.outcome.passes ≤ c.bounds.maxPasses) :
    Recorded c left (x.record t) n := by
  have hpasses := h.going.passes
  refine ⟨⟨h.going.budget, h.going.asked, ?_, ?_⟩, ?_, by simp [Compilation.record]⟩
  · change x.passes + t.outcome.passes ≤ ((x.regenerations + 1 : Nat) : Int) * c.bounds.maxPasses
    rw [Nat.add_zero] at hpasses
    rw [Int.natCast_add, Int.natCast_one, Int.add_mul, Int.one_mul]
    omega
  · intro entry hentry
    rcases List.mem_append.mp hentry with hentry | hentry
    · exact h.going.unfinished entry hentry
    · obtain ⟨event, -, rfl⟩ := List.mem_map.mp hentry
      rfl
  · change (x.timeline ++ t.outcome.events.map _).countP _ = x.regenerations + 1
    rw [List.countP_append, h.drafts, List.countP_eq_zero.mpr]
    intro entry hentry
    obtain ⟨event, -, rfl⟩ := List.mem_map.mp hentry
    exact Bool.false_ne_true

theorem Wrong.record (h : Wrong x) {t : Try} (ht : errorCount t.outcome.diagnostics ≠ 0) :
    Wrong (x.record t) := by
  intro b hb
  obtain rfl : Compilation.better x.best t.outcome = b := by simpa [Compilation.record] using hb
  unfold Compilation.better
  split
  · exact ht
  · rename_i best hbest
    split
    · exact ht
    · exact h best hbest

end

inductive GoesOn (c : Compiler) : Nat → Compiler.Again (σ × Nat) → Prop
  | last : GoesOn c 0 none
  | next {left : Nat} {again : Context → List String → CompileM (σ × Nat) Compiled}
    (h : ∀ context feedback,
      Ensures (AtDraft c left 0) (again context feedback) (Delivered c) (Halted c)) :
    GoesOn c (left + 1) (some again)

section

variable {w : World σ} {c : Compiler} {request : String} {tenant : Tenant} {expires : Float}
  {left : Nat} {again : Compiler.Again (σ × Nat)} {context : Context}

theorem hydrated_ensures {P E : Known} {q : Query} (hE : ∀ x n, P.after 0 x n → E x n) :
    Ensures P (Compiler.hydrated w.counted expires q context tenant) (fun _ => P.after 0) E :=
  (quiet_ensures (Quiet.completeFor q context tenant) hE).bind fun _ => Ensures.pure fun _ _ h => h

/-- What is made up of a draft has the errors that were found before. -/
theorem Noted.madeUp {x : Compilation} {n : Nat} (h : Noted c left x n) (hmax : 0 ≤ c.maxRegenerations)
    (hpasses : 0 ≤ c.bounds.maxPasses) (hunread : Unread x.timeline) {text : String}
    {complaints : List Message} (hc : Message.errors complaints ≠ []) :
    Delivered c (c.madeUp x context text complaints) x n := by
  have hgoing := h.going.mono hpasses (Nat.le_refl 1) (Nat.zero_le 1)
  have hwrong : ∀ more, Message.errors (complaints ++ more) ≠ [] := by
    intro more
    rw [Message.errors_append]
    exact fun hnil => hc (List.append_eq_nil_iff.mp hnil).1
  unfold Compiler.madeUp
  split
  · exact hgoing.failed hmax (hwrong _)
  · exact hgoing.delivered hmax (by simp [hwrong]) (by simp) (by simp)
      (fun _ => ⟨rfl, hunread, h.drafts⟩)

/-- Where the last draft is no query, single names of it are at most a degraded result. -/
theorem endTolerantly_ensures (hmax : 0 ≤ c.maxRegenerations) (hpasses : 0 ≤ c.bounds.maxPasses)
    {text : String} {complaints : List Message} (hc : Message.errors complaints ≠ []) :
    Ensures (fun x n => Noted c left x n ∧ (x.best = none → Unread x.timeline))
      (Compiler.endTolerantly w.counted c expires tenant context text complaints)
      (Delivered c) (Halted c) := by
  unfold Compiler.endTolerantly
  apply Ensures.known_bind
  intro sofar
  apply Ensures.ite
  -- An earlier draft was corrected, and its outcome is what is left.
  · intro _
    apply Ensures.pure
    rintro _ n ⟨rfl, h, -⟩
    exact (h.going.mono hpasses (Nat.le_refl 1) (Nat.zero_le 1)).degraded hmax h.wrong fun _ => hc
  · intro hnone
    have hbest : sofar.best = none := by simpa using hnone
    apply Ensures.before (P := fun x n => x = sofar ∧ Noted c left x n ∧ Unread x.timeline)
    -- Nothing was read so far, so that a query may be made up of names.
    · have hmade : ∀ context : Context, Ensures
          (fun x n => x = sofar ∧ Noted c left x n ∧ Unread x.timeline)
          (pure (c.madeUp sofar context text complaints) : CompileM (σ × Nat) Compiled)
          (Delivered c) (Halted c) := by
        intro context
        apply Ensures.pure
        rintro x n ⟨rfl, h, hunread⟩
        exact h.madeUp hmax hpasses hunread hc
      have hkeep : Ensures (fun x n => x = sofar ∧ Noted c left x n ∧ Unread x.timeline)
          (pure context : CompileM (σ × Nat) Context)
          (fun _ x n => x = sofar ∧ Noted c left x n ∧ Unread x.timeline) (Halted c) :=
        Ensures.pure fun x n h => h
      have hlater : ∀ x n, Known.after 0
          (fun x n => x = sofar ∧ Noted c left x n ∧ Unread x.timeline) x n →
          x = sofar ∧ Noted c left x n ∧ Unread x.timeline := by
        rintro x n ⟨m, ⟨rfl, h, hunread⟩, hn⟩
        exact ⟨rfl, Noted.later ⟨m, h, hn⟩, hunread⟩
      dsimp only
      split
      · apply Ensures.ite
        · intro _
          apply (Ensures.weaken (hydrated_ensures _) fun _ x n h => hlater x n h).bind
          · exact hmade
          · exact fun x n h => (hlater x n h).2.1.halted hpasses
        · exact fun _ => hkeep.bind hmade
      · exact hkeep.bind hmade
    · rintro x n ⟨rfl, h, hunread⟩
      exact ⟨rfl, h, hunread hbest⟩

theorem repaired_checked {c : Compiler} (hpasses : 0 ≤ c.bounds.maxPasses) {q : Query} {context : Context}
    {o : Outcome} (h : c.repaired q context = .ok o) :
    Checked (fun q => c.validator.validate q context) q c.bounds.maxPasses o := by
  have hchecked := run_checked (fun q => c.validator.validate q context) h
  have hmax : 0 + ((c.bounds.maxPasses - 0).toNat : Int) = c.bounds.maxPasses := by omega
  rwa [hmax] at hchecked

/-- Where no further draft may be asked for, there is an outcome that the result is made from. -/
theorem exhausted_ensures (hmax : 0 ≤ c.maxRegenerations) :
    Ensures (fun x n => Recorded c left x n ∧ Wrong x)
      (do
        CompileM.note .exhausted
        return (← CompileM.known).degraded [] : CompileM (σ × Nat) Compiled)
      (Delivered c) (Halted c) := by
  apply Ensures.change_bind (Q := fun x n => Going c left 1 1 x n ∧ Wrong x ∧ x.best ≠ none)
  · rintro x n ⟨h, hwrong⟩
    exact ⟨h.going.note rfl, hwrong, h.best⟩
  apply Ensures.known_bind
  intro sofar
  apply Ensures.pure
  rintro x n ⟨rfl, h, hwrong, hbest⟩
  exact h.degraded hmax hwrong fun hnone => absurd hnone hbest

/-- Where a draft was corrected until it is valid, it is what is delivered. -/
theorem Recorded.valid {x : Compilation} {n : Nat} (h : Recorded c left x n)
    (hmax : 0 ≤ c.maxRegenerations) (hpasses : 0 ≤ c.bounds.maxPasses) {t : Try} {text : String}
    (htried : t ∈ x.tries.getLast?) (hlast : t.attempt = x.regenerations)
    (hmem : .draft t.attempt text [] ∈ x.timeline) (hq : Query.parse text = .ok t.query)
    (hcorrected : c.repaired t.query t.context = .ok t.outcome) (hvalid : t.outcome.status = .valid) :
    Delivered c (x.result .valid (some t.outcome.query.render) t.outcome.diagnostics false) x n := by
  have hrun := repaired_checked hpasses hcorrected
  have hnone : errorCount t.outcome.diagnostics = 0 := by
    simpa [hvalid] using hrun.status
  -- Correcting a query keeps it as it was read, which is never from single names.
  have hstrict : t.outcome.query.tolerant = false := hrun.tolerant.trans (Query.parse_sound hq).1
  have hgives : t.Gives c (x.result .valid (some t.outcome.query.render) t.outcome.diagnostics false) :=
    ⟨hcorrected, hlast, ⟨text, List.mem_append_left _ hmem, hq⟩, rfl, hstrict, hrun.clean hvalid⟩
  exact h.going.delivered hmax (by simpa using List.length_eq_zero_iff.mp hnone) (by simp)
    (fun _ => ⟨rfl, t, htried, hgives⟩) (by simp)

theorem fromUnread_ensures (hmax : 0 ≤ c.maxRegenerations) (hpasses : 0 ≤ c.bounds.maxPasses)
    (hagain : GoesOn c left again) {text : String} {e : ParseError}
    (he : Query.parse text = .error e) :
    Ensures (AtDraft c left 1) (Compiler.fromUnread w.counted c expires tenant again context text e)
      (Delivered c) (Halted c) := by
  unfold Compiler.fromUnread
  apply Ensures.known_bind
  intro sofar
  apply Ensures.change_bind
    (Q := fun x n => Noted c left x n ∧ (x.best = none → Unread x.timeline))
  · rintro x n ⟨rfl, h⟩
    refine ⟨h.noted _ _ _, fun hbest => (h.unread hbest).append ?_⟩
    rintro attempt text' errors heq
    cases heq
    exact ⟨e, he⟩
  cases hagain with
  | last =>
    exact endTolerantly_ensures hmax hpasses
      (Message.errors_ne_nil rfl (List.mem_cons_self ..))
  | next hnext =>
    apply Ensures.change_bind _ (hnext _ _)
    rintro x n ⟨h, hunread⟩
    exact h.regenerate hpasses hunread _

theorem fromQuery_ensures (hmax : 0 ≤ c.maxRegenerations) (hpasses : 0 ≤ c.bounds.maxPasses)
    (hagain : GoesOn c left again) {text : String} {q : Query}
    (hq : Query.parse text = .ok q) :
    Ensures (AtDraft c left 1) (Compiler.fromQuery w.counted c expires tenant again context text q)
      (Delivered c) (Halted c) := by
  unfold Compiler.fromQuery
  apply Ensures.known_bind
  intro sofar
  apply Ensures.change_bind
    (Q := fun x n => Noted c left x n ∧ .draft x.regenerations text [] ∈ x.timeline)
  · rintro x n ⟨rfl, h⟩
    exact ⟨h.noted _ _ _, List.mem_append_right _ (List.mem_singleton.mpr rfl)⟩
  -- Completing the context asks for no draft. Where it fails, the draft is noted but not corrected.
  have hhydrated : Ensures
      (fun x n => Noted c left x n ∧ .draft x.regenerations text [] ∈ x.timeline)
      (Compiler.hydrated w.counted expires q context tenant)
      (fun _ x n => Known.after 0 (fun x n => Noted c left x n ∧
        .draft x.regenerations text [] ∈ x.timeline) x n) (Halted c) := by
    apply hydrated_ensures
    rintro x n ⟨m, ⟨h, -⟩, hn⟩
    exact (Noted.later ⟨m, h, hn⟩).halted hpasses
  apply hhydrated.bind
  intro context'
  cases ho : c.repaired q context' with
  | error f =>
    apply Ensures.throw
    rintro x n ⟨m, ⟨h, -⟩, hn⟩
    exact (Noted.later ⟨m, h, hn⟩).halted hpasses
  | ok o =>
    have hrun := repaired_checked hpasses ho
    dsimp only
    apply Ensures.change_bind (Q := fun x n => Recorded c left x n ∧
      .draft x.regenerations text [] ∈ x.timeline ∧ ⟨x.regenerations, q, context', o⟩ ∈ x.tries.getLast? ∧
      (errorCount o.diagnostics ≠ 0 → Wrong x))
    · rintro x n ⟨m, ⟨h, hmem⟩, hn⟩
      have hnoted := Noted.later ⟨m, h, hn⟩
      exact ⟨hnoted.record hrun.passes, List.mem_append_left _ hmem, List.getLast?_concat ..,
        fun hsome => hnoted.wrong.record hsome⟩
    -- A valid outcome is the result, and any other one leads to a further draft or to the end.
    apply Ensures.ite
    · intro hstatus
      apply Ensures.known_bind
      intro sofar
      apply Ensures.pure
      rintro x n ⟨rfl, h, hmem, htried, -⟩
      exact h.valid (t := ⟨_, q, context', o⟩) hmax hpasses htried rfl hmem hq ho (eq_of_beq hstatus)
    · intro hstatus
      have hsome : errorCount o.diagnostics ≠ 0 := by
        intro hnone
        rw [hrun.status, if_pos hnone] at hstatus
        exact hstatus rfl
      cases hagain with
      | last =>
        apply (exhausted_ensures hmax).before
        rintro x n ⟨h, -, -, hwrong⟩
        exact ⟨h, hwrong hsome⟩
      | next hnext =>
        apply Ensures.change_bind _ (hnext _ _)
        rintro x n ⟨h, -, -, hwrong⟩
        exact h.regenerate (hwrong hsome) _

theorem draftThen_ensures (hmax : 0 ≤ c.maxRegenerations) (hpasses : 0 ≤ c.bounds.maxPasses)
    (hagain : GoesOn c left again) (plan : Plan) (feedback : List String) :
    Ensures (AtDraft c left 0)
      (Compiler.draftThen w.counted c expires tenant request plan again context feedback)
      (Delivered c) (Halted c) := by
  unfold Compiler.draftThen
  have hdraft : Ensures (AtDraft c left 0)
      (Compiler.talk w.counted expires c.completionTime (Draft.make request plan context feedback))
      (fun _ => AtDraft c left 1) (Halted c) := by
    apply Ensures.weaken (talk_ensures (fun e => draft_adds w (some e) request plan context feedback) _)
    · exact fun _ x n h => AtDraft.later h
    · exact fun x n h => (AtDraft.later h).halted hpasses (Nat.le_refl 1)
  apply hdraft.bind
  intro draft
  split
  · exact Ensures.throw fun x n h => h.halted hpasses (Nat.le_refl 1)
  · exact fromUnread_ensures hmax hpasses hagain ‹_›
  · exact fromQuery_ensures hmax hpasses hagain ‹_›

/-- By induction on how many further drafts may be asked for. -/
theorem drafts_ensures (hmax : 0 ≤ c.maxRegenerations) (hpasses : 0 ≤ c.bounds.maxPasses)
    (plan : Plan) (feedback : List String) :
    Ensures (AtDraft c left 0)
      (Compiler.drafts w.counted c expires tenant request plan left context feedback)
      (Delivered c) (Halted c) := by
  induction left generalizing context feedback with
  | zero => exact draftThen_ensures hmax hpasses .last plan feedback
  | succ left ih => exact draftThen_ensures hmax hpasses (.next fun _ feedback => ih feedback) plan feedback

theorem startLog_adds (now : Moment) (request : String) (tenant : Tenant) (context : Context) :
    Adds (Session.asked (σ := σ)) 0 (Compiler.startLog now request tenant context) :=
  fun _ => Nat.le_refl _

theorem planThen_ensures (hmax : 0 ≤ c.maxRegenerations) (hpasses : 0 ≤ c.bounds.maxPasses)
    (now : Moment) :
    Ensures (AtDraft c c.maxRegenerations.toNat 0)
      (Compiler.planThen w.counted c now request tenant expires context)
      (Delivered c) (Halted c) := by
  unfold Compiler.planThen
  apply Ensures.change_bind (Q := AtDraft c c.maxRegenerations.toNat 0) fun _ _ h => h.note rfl rfl
  -- Neither starting the log nor asking for a plan is asking for a draft.
  have hlog : Ensures (AtDraft c c.maxRegenerations.toNat 0)
      (CompileM.inSession (Compiler.startLog now request tenant context) : CompileM (σ × Nat) Unit)
      (fun _ => AtDraft c c.maxRegenerations.toNat 0) (Halted c) :=
    (Ensures.inSession (startLog_adds now request tenant context)).weaken
      fun _ x n h => AtDraft.later h
  apply hlog.bind
  intro _
  have hplan : Ensures (AtDraft c c.maxRegenerations.toNat 0)
      (Compiler.talk w.counted expires c.completionTime (Plan.make request context))
      (fun _ => AtDraft c c.maxRegenerations.toNat 0) (Halted c) := by
    apply Ensures.weaken (quiet_ensures (Quiet.plan request context) _)
    · exact fun _ x n h => AtDraft.later h
    · exact fun x n h => (AtDraft.later h).halted hpasses (Nat.zero_le 1)
  apply hplan.bind
  intro plan
  apply Ensures.change_bind (Q := AtDraft c c.maxRegenerations.toNat 0) fun _ _ h =>
    ⟨{ h.going with }, h.wrong, h.drafts, h.unread⟩
  apply Ensures.change_bind (Q := AtDraft c c.maxRegenerations.toNat 0) fun _ _ h => h.note rfl rfl
  cases plan with
  | error e =>
    apply Ensures.known_bind
    intro sofar
    apply Ensures.pure
    rintro x n ⟨rfl, h⟩
    exact (h.going.mono hpasses (Nat.zero_le 1) (Nat.zero_le 1)).failed hmax
      (Message.errors_ne_nil rfl (List.mem_singleton.mpr rfl))
  | ok plan => exact drafts_ensures hmax hpasses plan []

theorem steps_ensures (hmax : 0 ≤ c.maxRegenerations) (hpasses : 0 ≤ c.bounds.maxPasses)
    (now : Moment) :
    Ensures (AtDraft c c.maxRegenerations.toNat 0)
      (Compiler.steps w.counted c now request tenant expires) (Delivered c) (Halted c) := by
  unfold Compiler.steps
  have hobtain : Ensures (AtDraft c c.maxRegenerations.toNat 0)
      (Compiler.bounded expires none fun expires =>
        Session.onCache (c.assembler.obtain w.counted c.policy (some expires) request tenant))
      (fun _ => AtDraft c c.maxRegenerations.toNat 0) (Halted c) := by
    apply Ensures.weaken (bounded_ensures
      (fun e => onCache_adds (obtain_adds w c.assembler c.policy (some e) request tenant)) _)
    · exact fun _ x n h => AtDraft.later h
    · exact fun x n h => (AtDraft.later h).halted hpasses (Nat.zero_le 1)
  exact hobtain.bind fun _ => planThen_ensures hmax hpasses now

/-- A compilation begins with nothing asked and nothing drafted. -/
theorem AtDraft.start (c : Compiler) (request : String) :
    AtDraft c c.maxRegenerations.toNat 0 { request } 0 := by
  refine ⟨⟨?_, Nat.le_refl 0, ?_, ?_⟩, ?_, rfl, ?_⟩
  · exact Nat.zero_add _
  · simp
  · simp
  · simp [Wrong]
  · simp [Unread]

end

end Soql
