import Soql.Proofs.Repair.Checked
import Soql.Proofs.Validation.Messages

namespace Soql.Repair

variable {σ : Type}

/-- A run that ends well keeps passes until no errors are left, and then settles. -/
theorem loop_settles (check : Query → StateM σ (List Message)) (stallLimit : Int) (left : Nat)
    (p : Progress) (s : σ) {o : Outcome} (h : ((loop check stallLimit left p).run s).1 = .ok o)
    (hvalid : o.status = .valid) :
    ∃ last, Relation.ReflTransGen (Advances check) ⟨left, p, s⟩ last ∧
      classify last.progress.messages = .valid ∧
      (loop check stallLimit left p).run s = (settleValid check last.progress).run last.state := by
  induction left generalizing p s with
  | zero =>
    by_cases hv : classify p.messages = .valid
    · exact ⟨_, .refl, hv, by rw [loop_valid check stallLimit hv]⟩
    · by_cases hr : classify p.messages = .repairable
      · rw [loop_spent check stallLimit hr] at h
        cases h
        cases hvalid
      · rw [loop_unrepairable check stallLimit hv hr] at h
        cases h
        cases hvalid
  | succ left ih =>
    by_cases hv : classify p.messages = .valid
    · exact ⟨_, .refl, hv, by rw [loop_valid check stallLimit hv]⟩
    by_cases hr : classify p.messages = .repairable
    case neg =>
      rw [loop_unrepairable check stallLimit hv hr] at h
      cases h
      cases hvalid
    cases hmade : Action.performAll p.query (wantedActions p.messages) with
    | error f =>
      rw [loop_refused check stallLimit hr hmade] at h
      cases h
    | ok candidate =>
      obtain rfl : candidate = p.candidate := Action.performAll_ok hmade
      cases hchecked : (check p.candidate).run s with
      | mk messages s' =>
        rw [loop_pass check stallLimit hr hmade hchecked] at h ⊢
        cases hwritten : isWritten (wantedActions p.messages) p.candidate with
        | false =>
          rw [hwritten] at h
          cases h
        | true =>
          have hlong : ¬true = false := nofun
          rw [hwritten, if_neg hlong] at h
          rw [if_neg hlong]
          -- The pass that is tried is neither taken back nor the last of a run without progress.
          by_cases hmore : errorCount p.messages < errorCount messages
          · rw [if_pos hmore] at h
            cases h
            cases hvalid
          · rw [if_neg hmore] at h ⊢
            by_cases hstalled : stallLimit ≤ (p.keep messages).stalls ∧ 0 < errorCount messages
            · rw [if_pos hstalled] at h
              cases h
              cases hvalid
            · rw [if_neg hstalled] at h ⊢
              obtain ⟨last, hpath, hlast⟩ := ih _ _ h
              exact ⟨last, .head (.pass hr hmade hchecked hwritten (Nat.le_of_not_lt hmore)) hpath, hlast⟩

/-- No pass is recorded as a limit. -/
theorem path_events {check : Query → StateM σ (List Message)} {x y : Point σ}
    (h : Relation.ReflTransGen (Advances check) x y)
    (hx : ∀ query, Event.limit query ∉ x.progress.events) (query : String) :
    Event.limit query ∉ y.progress.events := by
  induction h with
  | refl => exact hx query
  | tail _ hstep ih =>
    cases hstep with
    | @pass left p s s' messages repairable made checked written kept =>
      intro hmem
      rcases List.mem_append.mp hmem with hmem | hmem
      · exact ih hmem
      · cases List.mem_singleton.mp hmem

theorem limitWarnings_append (first second : List Message) :
    limitWarnings (first ++ second) = limitWarnings first ++ limitWarnings second :=
  List.filter_append ..

/-- Errors ask for no limit. -/
theorem limitWarnings_of_onlyErrors {messages : List Message} (h : Message.OnlyErrors messages) :
    limitWarnings messages = [] := by
  rw [limitWarnings, List.filter_eq_nil_iff]
  intro m hm
  simp [h m hm]

/-- What a limit answers is not among messages that ask for no limit. -/
theorem filter_unanswered {others messages : List Message} {warning : Message} (hothers : limitWarnings others = [])
    (hlimit : warning ∈ limitWarnings messages) : others.filter (fun m => !([warning].contains m)) = others := by
  rw [List.filter_eq_self]
  intro m hm
  have hother : m ≠ warning := by
    rintro rfl
    exact List.filter_eq_nil_iff.mp hothers m hm (List.mem_filter.mp hlimit).2
  simpa using hother

theorem classify_valid_of_errors {messages : List Message} (h : Message.errors messages = []) :
    classify messages = .valid :=
  classify_valid_iff.mpr (List.length_eq_zero_iff.mpr h)

/-- The limit that was added to a query, with the warning that it answers. -/
inductive Answered (o : Outcome) : List Message → Prop
  | none (events : ∀ query, Event.limit query ∉ o.events) : Answered o []
  | limit {warning : Message} {n : Int} (action : warning.action = some (.applyLimit n))
    (limited : o.query.limit = some n)
    (event : o.events.getLast? = some (.limit o.query.render))
    (correction : o.corrections.getLast? = some (Action.applyLimit n).describe) :
    Answered o [warning]

def unchanged (q : Query) (messages : List Message) (used : Int) : Outcome where
  status := .valid
  query := q
  diagnostics := messages
  passes := used
  corrections := []
  events := []

section

variable (f : Query → List Message)

def Contented : Prop :=
  ∀ q, limitWarnings (f q) = [] ∨
    ∃ others warning n, f q = others ++ [warning] ∧ limitWarnings others = [] ∧
      limitWarnings (f q) = [warning] ∧ warning.action = some (.applyLimit n) ∧
      f ((Action.applyLimit n).apply q) = others

/-- A query without errors that asks for no limit stays as it is. -/
theorem run_unchanged {q : Query} (herrors : Message.errors (f q) = [])
    (hlimits : limitWarnings (f q) = []) (bounds : Bounds) (used : Int) (s : σ) :
    (run (fun q => pure (f q)) bounds q used s).1 = .ok (unchanged q (f q) used) := by
  have hvalid := classify_valid_of_errors herrors
  change ((loop (fun q => (pure (f q) : StateM σ _)) bounds.stallLimit (bounds.maxPasses - used).toNat
    { query := q, messages := f q, passes := used }).run s).1 = _
  rw [loop_valid _ _ hvalid]
  simp only [settleValid, hlimits]
  rfl

/-- Where no limit is asked for, the query stands. -/
theorem settleValid_unlimited {p : Progress} (hnone : limitWarnings p.messages = []) (s : σ) :
    ((settleValid (fun q => (pure (f q) : StateM σ _)) p).run s).1 = .ok (p.finish .valid "") := by
  unfold settleValid
  rw [hnone]
  rfl

/-- A limit that is asked for is added, if it can be written. -/
theorem settleValid_limited {p : Progress} {others : List Message} {warning : Message} {n : Int}
    (hasked : limitWarnings p.messages = [warning]) (haction : warning.action = some (.applyLimit n))
    (hagain : f ((Action.applyLimit n).apply p.query) = others) (hclean : Message.errors others = [])
    (s : σ) :
    ((settleValid (fun q => (pure (f q) : StateM σ _)) p).run s).1 =
      if isWritten [.applyLimit n] ((Action.applyLimit n).apply p.query) then
        .ok (p.limited [warning] (.applyLimit n) others)
      else .error .tooLong := by
  unfold settleValid
  simp only [hasked, haction, hagain, pure_bind, hclean]
  cases isWritten [.applyLimit n] ((Action.applyLimit n).apply p.query) <;> rfl

/-- A run that ends well settles on a query without errors, of which all holds that the passes keep. -/
theorem run_settles {P : Query → Prop} (hpass : ∀ q, P q → P (Action.applyAll q (wantedActions (f q))))
    {bounds : Bounds} {q : Query} (hq : P q) {used : Int} {s : σ} {o : Outcome}
    (h : (run (fun q => pure (f q)) bounds q used s).1 = .ok o) (hvalid : o.status = .valid) :
    ∃ (p : Progress) (s' : σ), P p.query ∧ p.messages = f p.query ∧ Message.errors (f p.query) = [] ∧
      run (fun q => pure (f q)) bounds q used s = (settleValid (fun q => pure (f q)) p).run s' := by
  obtain ⟨last, hpath, hvalid, hrun⟩ := loop_settles _ _ _ _ _ h hvalid
  have hmessages := path_messages f hpath rfl
  refine ⟨last.progress, last.state, path_keeps hpass hpath rfl hq, hmessages, ?_, hrun⟩
  rw [← hmessages]
  exact List.length_eq_zero_iff.mp (classify_valid_iff.mp hvalid)

/-- Where the checks are content with the limit that they ask for, a query that was corrected well is
not corrected again, and its messages are those that no limit answered. -/
theorem run_again (hf : Contented f) {bounds : Bounds} {q : Query} {used : Int} {s : σ} {o : Outcome}
    (h : (run (fun q => pure (f q)) bounds q used s).1 = .ok o) (hvalid : o.status = .valid) :
    ∃ kept answered, o.diagnostics = kept ++ answered ∧ limitWarnings kept = [] ∧ Answered o answered ∧
      ∀ (bounds' : Bounds) (used' : Int) (s' : σ),
        (run (fun q => pure (f q)) bounds' o.query used' s').1 = .ok (unchanged o.query kept used') := by
  obtain ⟨last, hpath, hvalid, hrun⟩ := loop_settles _ _ _ _ _ h hvalid
  have hmessages := path_messages f hpath rfl
  have hevents := path_events hpath (fun query hmem => by cases hmem)
  have herrors : Message.errors last.progress.messages = [] :=
    List.length_eq_zero_iff.mp (classify_valid_iff.mp hvalid)
  change (run (fun q => pure (f q)) bounds q used s) = _ at hrun
  rw [hrun] at h
  rcases hf last.progress.query with hnone | ⟨others, warning, n, hsplit, hothers, hasked, haction, hagain⟩
  · -- No limit is asked for, and the outcome is the query as it stands.
    obtain rfl := Except.ok.inj ((settleValid_unlimited f (hmessages ▸ hnone) last.state).symm.trans h)
    refine ⟨last.progress.messages, [], (List.append_nil _).symm, hmessages ▸ hnone, .none hevents, ?_⟩
    intro bounds' used' s'
    change (run (fun q => pure (f q)) bounds' last.progress.query used' s').1 = _
    rw [hmessages] at herrors ⊢
    exact run_unchanged f herrors hnone bounds' used' s'
  -- The limit that was asked for is set, and a second run finds no warning to answer.
  · rw [hmessages, hsplit, Message.errors_append, List.append_eq_nil_iff] at herrors
    have hlimited := (settleValid_limited f (hmessages ▸ hasked) haction hagain herrors.1 last.state).symm.trans h
    split at hlimited
    case isFalse => cases hlimited
    obtain rfl := Except.ok.inj hlimited
    refine ⟨others, [warning], ?_, hothers, ?_, ?_⟩
    · change others.filter (fun m => !([warning].contains m)) ++ [warning] = _
      have hlimit : warning ∈ limitWarnings (f last.progress.query) := hasked ▸ List.mem_singleton_self _
      rw [filter_unanswered hothers hlimit]
    · exact .limit haction rfl (List.getLast?_concat ..) (List.getLast?_concat ..)
    · intro bounds' used' s'
      have hquiet := run_unchanged f (hagain ▸ herrors.1) (hagain ▸ hothers) bounds' used' s'
      rw [hagain] at hquiet
      exact hquiet

end

end Soql.Repair
