import Soql.Proofs.Repair.Trace

namespace Soql.Repair

variable {σ : Type}

structure Tally where
  before : Nat
  after : Nat
  undone : Bool

def Event.tally : Event → Option Tally
  | .pass _ before after _ _ rolledBack => some ⟨before, after, rolledBack⟩
  | .limit _ => none

def Event.undone (e : Event) : Bool :=
  e.tally.any Tally.undone

def tallies (events : List Event) : List Tally :=
  events.filterMap Event.tally

/-- Passes that lead from one number of errors to another, each from where the one before it led. -/
def Linked : Nat → List Tally → Nat → Prop
  | n, [], m => n = m
  | n, t :: ts, m => t.before = n ∧ Linked t.after ts m

theorem Linked.snoc {n m : Nat} {ts : List Tally} (h : Linked n ts m) {t : Tally}
    (ht : t.before = m) : Linked n (ts ++ [t]) t.after := by
  induction ts generalizing n with
  | nil => exact ⟨ht.trans h.symm, rfl⟩
  | cons u ts ih => exact ⟨h.1, ih h.2⟩

theorem Linked.le {n m : Nat} {ts : List Tally} (h : Linked n ts m)
    (hts : ∀ t ∈ ts, t.after ≤ t.before) : m ≤ n := by
  induction ts generalizing n with
  | nil => exact Nat.le_of_eq h.symm
  | cons t ts ih =>
    calc m ≤ t.after := ih h.2 (fun u hu => hts u (List.mem_cons_of_mem t hu))
      _ ≤ t.before := hts t List.mem_cons_self
      _ = n := h.1

theorem tallies_keep (p : Progress) (messages : List Message) :
    tallies (p.events ++ [p.record messages]) = tallies p.events ++
      [⟨errorCount p.messages, errorCount messages,
        decide (errorCount p.messages < errorCount messages)⟩] := by
  simp [tallies, Progress.record, Event.tally]

theorem tallies_limit (events : List Event) (query : String) :
    tallies (events ++ [.limit query]) = tallies events := by
  simp [tallies, Event.tally]

def counted (check : Query → StateM σ (List Message)) (q : Query) : StateM (σ × Nat) (List Message) :=
  fun x => (((check q).run x.1).1, ((check q).run x.1).2, x.2 + 1)

theorem run_counted (check : Query → StateM σ (List Message)) (q : Query) (x : σ × Nat) :
    (counted check q).run x = (((check q).run x.1).1, ((check q).run x.1).2, x.2 + 1) :=
  rfl

def Point.plain (x : Point (σ × Nat)) : Point σ :=
  ⟨x.left, x.progress, x.state.1⟩

theorem Advances.plain {check : Query → StateM σ (List Message)} {x y : Point (σ × Nat)}
    (h : Advances (counted check) x y) : Advances check x.plain y.plain := by
  cases h with
  | pass repairable made checked written kept =>
    cases checked
    exact Advances.pass repairable made rfl written kept

structure Sound (first : Nat) (used : Int) (budget : Nat) (x : Point (σ × Nat)) : Prop where
  passes : x.progress.passes = used + (tallies x.progress.events).length
  budget : (tallies x.progress.events).length + x.left = budget
  calls : x.state.2 = 1 + (tallies x.progress.events).length
  kept : ∀ t ∈ tallies x.progress.events, t.undone = false ∧ t.after ≤ t.before
  linked : Linked first (tallies x.progress.events) (errorCount x.progress.messages)

theorem Sound.advance {check : Query → StateM σ (List Message)} {first : Nat} {used : Int}
    {budget : Nat} {x y : Point (σ × Nat)} (h : Sound first used budget x)
    (hxy : Advances (counted check) x y) : Sound first used budget y := by
  cases hxy with
  | pass repairable made checked written hkept =>
    rename_i left p s s' messages
    have hs' : s'.2 = s.2 + 1 := by
      rw [run_counted] at checked
      exact (congrArg (fun r => r.2.2) checked).symm
    obtain ⟨hpasses, hbudget, hcalls, hall, hlinked⟩ := h
    -- One more event, and one more check.
    have hts : tallies (p.keep messages).events = tallies p.events ++ [⟨errorCount p.messages,
        errorCount messages, decide (errorCount p.messages < errorCount messages)⟩] :=
      tallies_keep p messages
    have hlength : (tallies (p.keep messages).events).length = (tallies p.events).length + 1 := by
      rw [hts, List.length_append, List.length_singleton]
    simp only at hpasses hbudget hcalls hall hlinked
    refine ⟨?_, ?_, ?_, ?_, ?_⟩
    · change p.passes + 1 = _
      rw [hlength, hpasses]
      omega
    · change (tallies (p.keep messages).events).length + left = budget
      omega
    · change s'.2 = 1 + (tallies (p.keep messages).events).length
      omega
    · intro t ht
      rw [hts] at ht
      rcases List.mem_append.mp ht with ht | ht
      · exact hall t ht
      · obtain rfl := List.mem_singleton.mp ht
        exact ⟨decide_eq_false (Nat.not_lt_of_le hkept), hkept⟩
    · rw [hts]
      exact hlinked.snoc rfl

theorem Sound.path {check : Query → StateM σ (List Message)} {first : Nat} {used : Int}
    {budget : Nat} {x y : Point (σ × Nat)} (h : Sound first used budget x)
    (hxy : Relation.ReflTransGen (Advances (counted check)) x y) : Sound first used budget y := by
  induction hxy with
  | refl => exact h
  | tail _ hstep ih => exact ih.advance hstep

theorem counted_projects (check : Query → StateM σ (List Message)) (q : Query) :
    Projects Prod.fst (counted check q) (check q) :=
  fun _ => rfl

section

variable {τ : Type} {part : τ → σ} {wide : Query → StateM τ (List Message)}
  {check : Query → StateM σ (List Message)}

theorem settleValid_projects (h : ∀ q, Projects part (wide q) (check q)) (p : Progress) :
    Projects part (settleValid wide p) (settleValid check p) := by
  unfold settleValid
  cases limitWarnings p.messages with
  | nil => exact Projects.pure _
  | cons warning others =>
    cases haction : warning.action with
    | none =>
      simp only [haction]
      exact Projects.pure _
    | some action =>
      simp only [haction]
      exact (h _).bind fun _ => Projects.ite (Projects.pure _) (Projects.ite (Projects.pure _) (Projects.pure _))

theorem loop_projects (h : ∀ q, Projects part (wide q) (check q)) (stallLimit : Int) (left : Nat)
    (p : Progress) : Projects part (loop wide stallLimit left p) (loop check stallLimit left p) := by
  induction left generalizing p with
  | zero =>
    unfold loop
    cases classify p.messages with
    | valid => exact settleValid_projects h p
    | repairable => exact Projects.pure _
    | needsRegeneration => exact Projects.pure _
    | exhausted => exact Projects.pure _
  | succ left ih =>
    unfold loop
    cases classify p.messages with
    | valid => exact settleValid_projects h p
    | repairable =>
      cases hmade : Action.performAll p.query (wantedActions p.messages) with
      | error f =>
        simp only [hmade]
        exact Projects.pure _
      | ok candidate =>
        simp only [hmade]
        apply (h _).bind
        intro messages
        apply Projects.ite (Projects.pure _)
        exact Projects.ite (Projects.pure _) (Projects.ite (Projects.pure _) (ih _))
    | needsRegeneration => exact Projects.pure _
    | exhausted => exact Projects.pure _

/-- A run does the same where the checks have more to their state. -/
theorem run_projects_of (h : ∀ q, Projects part (wide q) (check q)) (bounds : Bounds) (q : Query)
    (used : Int) : Projects part (run wide bounds q used) (run check bounds q used) :=
  (h q).bind fun _ => loop_projects h _ _ _

end

/-- To count the checks changes nothing. -/
theorem run_projects (check : Query → StateM σ (List Message)) (bounds : Bounds) (q : Query)
    (used : Int) :
    Projects Prod.fst (run (counted check) bounds q used) (run check bounds q used) :=
  run_projects_of (counted_projects check) bounds q used

def start (check : Query → StateM σ (List Message)) (bounds : Bounds) (q : Query) (used : Int)
    (s : σ) : Point σ where
  left := (bounds.maxPasses - used).toNat
  progress := { query := q, messages := ((check q).run s).1, passes := used }
  state := ((check q).run s).2

structure Settled (check : Query → StateM σ (List Message)) (origin : Point σ) (o : Outcome)
    (calls : Nat) : Prop where
  calls : calls ≤ 2 + origin.left
  passes : o.passes = origin.progress.passes + (tallies o.events).length
  within : (tallies o.events).length ≤ origin.left
  fewer : ∀ t ∈ tallies o.events, t.undone = false → t.after ≤ t.before
  linked : ∃ m, Linked (errorCount origin.progress.messages) (tallies o.events) m
  takenBack : ∀ before e after, o.events = before ++ e :: after → e.undone = true → after = [] ∧
    ∃ last, Relation.ReflTransGen (Advances check) origin last ∧ last.progress.events = before ∧
      o.query = last.progress.query ∧ o.diagnostics = last.progress.messages ∧
      o.corrections = last.progress.corrections
  fewest : errorCount o.diagnostics ≤ errorCount origin.progress.messages
  status : o.status = if errorCount o.diagnostics = 0 then .valid else .needsRegeneration

section

variable {check : Query → StateM σ (List Message)} {origin : Point σ} {x : Point (σ × Nat)}

theorem Sound.not_undone {first : Nat} {used : Int} {budget : Nat} (h : Sound first used budget x)
    {e : Event} (he : e ∈ x.progress.events) : e.undone = false := by
  unfold Event.undone
  cases htally : e.tally with
  | none => rfl
  | some t => exact (h.kept t (List.mem_filterMap.mpr ⟨e, he, htally⟩)).1

theorem Sound.not_more {first : Nat} {used : Int} {budget : Nat} (h : Sound first used budget x) :
    errorCount x.progress.messages ≤ first :=
  h.linked.le fun t ht => (h.kept t ht).2

structure Reached (check : Query → StateM σ (List Message)) (origin : Point σ)
    (x : Point (σ × Nat)) : Prop where
  sound : Sound (errorCount origin.progress.messages) origin.progress.passes origin.left x
  path : Relation.ReflTransGen (Advances check) origin x.plain

theorem Reached.finish (h : Reached check origin x) {status : Status} {reason : String} {calls : Nat}
    (hcalls : calls ≤ x.state.2 + 1)
    (hstatus : status = if errorCount x.progress.messages = 0 then .valid else .needsRegeneration) :
    Settled check origin (x.progress.finish status reason) calls := by
  have hbudget := h.sound.budget
  have hsofar := h.sound.calls
  refine ⟨by omega, h.sound.passes, ?_, ?_, ⟨_, h.sound.linked⟩, ?_, h.sound.not_more, hstatus⟩
  · change (tallies x.progress.events).length ≤ origin.left
    omega
  · intro t ht _
    exact (h.sound.kept t ht).2
  · intro before e after hevents hundone
    have he : e ∈ x.progress.events := by
      change x.progress.events = _ at hevents
      simp [hevents]
    rw [h.sound.not_undone he] at hundone
    cases hundone

theorem Reached.limited (h : Reached check origin x) {action : Action} {recheck : List Message}
    {calls : Nat} (hcalls : calls ≤ x.state.2 + 1) (hclean : Message.errors recheck = []) :
    Settled check origin (x.progress.limited (limitWarnings x.progress.messages) action recheck)
      calls := by
  have hbudget := h.sound.budget
  have hsofar := h.sound.calls
  -- The step that sets a limit is no pass, so nothing is counted.
  have hnone := x.progress.errorCount_limited action hclean
  have hts : tallies (x.progress.limited (limitWarnings x.progress.messages) action recheck).events =
      tallies x.progress.events := tallies_limit x.progress.events _
  refine ⟨by omega, ?_, ?_, ?_, ?_, ?_, ?_, ?_⟩
  · rw [hts]
    exact h.sound.passes
  · rw [hts]
    omega
  · intro t ht _
    rw [hts] at ht
    exact (h.sound.kept t ht).2
  · rw [hts]
    exact ⟨_, h.sound.linked⟩
  · intro before e after hevents hundone
    change x.progress.events ++ [_] = _ at hevents
    have he : e ∈ x.progress.events ++ [.limit (action.apply x.progress.query).render] := by
      simp [hevents]
    rcases List.mem_append.mp he with he | he
    · rw [h.sound.not_undone he] at hundone
      cases hundone
    · obtain rfl := List.mem_singleton.mp he
      cases hundone
  · rw [hnone]
    exact Nat.zero_le _
  · exact (if_pos hnone).symm

theorem Reached.takenBack (h : Reached check origin x) {messages : List Message} {reason : String}
    {calls : Nat} (hleft : 0 < x.left) (hcalls : calls ≤ x.state.2 + 1)
    (hmore : errorCount x.progress.messages < errorCount messages)
    (hstatus : .needsRegeneration =
      if errorCount x.progress.messages = 0 then Status.valid else .needsRegeneration) :
    Settled check origin ((x.progress.takeBack messages).finish .needsRegeneration reason) calls := by
  have hbudget := h.sound.budget
  have hsofar := h.sound.calls
  -- The pass that is taken back is counted like every other.
  have hts : tallies (x.progress.takeBack messages).events = tallies x.progress.events ++
      [⟨errorCount x.progress.messages, errorCount messages, true⟩] := by
    rw [← decide_eq_true hmore]
    exact tallies_keep x.progress messages
  have hlength : (tallies (x.progress.takeBack messages).events).length =
      (tallies x.progress.events).length + 1 := by
    rw [hts, List.length_append, List.length_singleton]
  refine ⟨by omega, ?_, ?_, ?_, ?_, ?_, h.sound.not_more, hstatus⟩
  · change x.progress.passes + 1 = origin.progress.passes + (tallies (x.progress.takeBack messages).events).length
    have hpasses := h.sound.passes
    omega
  · change (tallies (x.progress.takeBack messages).events).length ≤ origin.left
    omega
  · intro t ht hkept
    change t ∈ tallies (x.progress.takeBack messages).events at ht
    rw [hts] at ht
    rcases List.mem_append.mp ht with ht | ht
    · exact (h.sound.kept t ht).2
    · obtain rfl := List.mem_singleton.mp ht
      cases hkept
  · change ∃ m, Linked _ (tallies (x.progress.takeBack messages).events) m
    rw [hts]
    exact ⟨_, h.sound.linked.snoc rfl⟩
  · intro before e after hevents hundone
    change x.progress.events ++ [_] = before ++ e :: after at hevents
    -- Only the last pass was taken back.
    rcases List.eq_nil_or_concat after with rfl | ⟨others, last, rfl⟩
    · obtain ⟨hbefore, -⟩ := List.append_inj' hevents rfl
      exact ⟨rfl, x.plain, h.path, hbefore, rfl, rfl, rfl⟩
    · have hcut : x.progress.events ++ [x.progress.record messages] =
          (before ++ e :: others) ++ [last] := by simpa using hevents
      obtain ⟨hfront, -⟩ := List.append_inj' hcut rfl
      have he : e ∈ x.progress.events := by simp [hfront]
      rw [h.sound.not_undone he] at hundone
      cases hundone

/-- No step that ends the work checks more than once. -/
theorem Ends.calls_le {x : Point (σ × Nat)} {r : Except Failure Outcome} {s : σ × Nat}
    (h : Ends (counted check) x r s) : s.2 ≤ x.state.2 + 1 := by
  cases h with
  | valid valid => exact Nat.le_succ _
  | unfinished invalid => exact Nat.le_succ _
  | refused repairable refused => exact Nat.le_succ _
  | limitRefused valid checked => cases checked; exact Nat.le_refl _
  | limited valid asked checked clean => cases checked; exact Nat.le_refl _
  | limitUnwritten valid asked checked long => cases checked; exact Nat.le_refl _
  | unwritten repairable checked long => cases checked; exact Nat.le_refl _
  | takenBack repairable checked more => cases checked; exact Nat.le_refl _

theorem Reached.settled (h : Reached check origin x) {o : Outcome} {s : σ × Nat}
    (hend : Ends (counted check) x (.ok o) s) : Settled check origin o s.2 := by
  have hstatus := hend.status
  have hcalls := hend.calls_le
  cases hend with
  | valid valid => exact h.finish hcalls hstatus
  | limitRefused valid checked => exact h.finish hcalls hstatus
  | limited valid asked checked clean => exact h.limited hcalls clean
  | unfinished invalid => exact h.finish hcalls hstatus
  | takenBack repairable checked more => exact h.takenBack (Nat.succ_pos _) hcalls more hstatus

end

/-- What a run comes to, given the number of checks: an outcome, or a failure after some passes. -/
def Concluded (check : Query → StateM σ (List Message)) (origin : Point σ) (calls : Nat) :
    Except Failure Outcome → Prop
  | .ok o => Settled check origin o calls
  | .error f => calls ≤ 2 + origin.left ∧
    ∃ last, Relation.ReflTransGen (Advances check) origin last ∧ Fault last.progress f

theorem Reached.concluded {check : Query → StateM σ (List Message)} {origin : Point σ} {x : Point (σ × Nat)}
    (h : Reached check origin x) {r : Except Failure Outcome} {s : σ × Nat} (hend : Ends (counted check) x r s) :
    Concluded check origin s.2 r := by
  cases r with
  | ok o => exact h.settled hend
  | error f =>
    have hcalls := hend.calls_le
    have hsofar := h.sound.calls
    have hbudget := h.sound.budget
    exact ⟨by omega, x.plain, h.path, hend.fault⟩

/-- A run ends whatever the checks answer, after two more checks than passes are left at most, with an outcome
unless a correction writes a path that is no template or a number has too many digits. The passes of an
outcome are counted and linked by their errors, none that is kept adds errors, only the last can be taken
back, which leaves all as it was before it, and the status says whether errors are left. -/
theorem run_settled (check : Query → StateM σ (List Message)) (bounds : Bounds) (q : Query)
    (used : Int) (s : σ) : ∃ calls,
      (run (counted check) bounds q used).run (s, 0) =
        (((run check bounds q used).run s).1, ((run check bounds q used).run s).2, calls) ∧
      Concluded check (start check bounds q used s) calls ((run check bounds q used).run s).1 := by
  have hprojects := run_projects check bounds q used (s, 0)
  -- The first check is counted, and the loop goes on from there.
  obtain ⟨last, hpath, hend⟩ := loop_traced (counted check) bounds.stallLimit
    (bounds.maxPasses - used).toNat { query := q, messages := ((check q).run s).1, passes := used }
    (((check q).run s).2, 1)
  have hfirst : Reached check (start check bounds q used s) ⟨(bounds.maxPasses - used).toNat,
      { query := q, messages := ((check q).run s).1, passes := used }, ((check q).run s).2, 1⟩ :=
    ⟨⟨by simp [start, tallies], by simp [start, tallies], rfl, by simp [tallies], rfl⟩,
      Relation.ReflTransGen.refl⟩
  have hlast : Reached check (start check bounds q used s) last :=
    ⟨hfirst.sound.path hpath, hpath.lift Point.plain fun _ _ => Advances.plain⟩
  have hconcluded := hlast.concluded hend
  change Concluded check _ ((run (counted check) bounds q used).run (s, 0)).2.2
    ((run (counted check) bounds q used).run (s, 0)).1 at hconcluded
  refine ⟨((run (counted check) bounds q used).run (s, 0)).2.2, ?_, ?_⟩
  · rw [← hprojects]
    rfl
  · rw [← hprojects]
    exact hconcluded

def groupless : Message :=
  .error "fields" "no such field" (some (.swapField "Foo" "\\g<a>" Clause.every))

/-- A correction that writes such a name ends the run without an outcome. -/
theorem run_groupless : (run (fun _ => (pure [groupless] : StateM Unit _)) {}
    { object := "Account", items := [.field "Foo" none], limit := some 5 } 0 ()).1 =
      .error (.unreadable .noGroup) := by
  rfl

end Soql.Repair
