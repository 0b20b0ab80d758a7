import Soql.Proofs.Repair.Trace

namespace Soql.Action

/-- No correction makes a query a tolerant one, or a tolerant one another. -/
theorem apply_tolerant (q : Query) (a : Action) : (a.apply q).tolerant = q.tolerant := by
  cases a with
  | swapObject old new =>
    simp only [apply]
    split <;> rfl
  | _ => rfl

theorem applyAll_tolerant (q : Query) (actions : List Action) :
    (applyAll q actions).tolerant = q.tolerant := by
  unfold applyAll
  induction inOrder actions generalizing q with
  | nil => rfl
  | cons a actions ih => exact (ih _).trans (apply_tolerant q a)

end Soql.Action

namespace Soql.Repair

variable {σ : Type} {x y : Point σ}

theorem path_tolerant {check : Query → StateM σ (List Message)}
    (h : Relation.ReflTransGen (Advances check) x y) :
    y.progress.query.tolerant = x.progress.query.tolerant := by
  induction h with
  | refl => rfl
  | tail _ hstep ih =>
    rw [← ih]
    cases hstep with
    | pass repairable made checked written kept => exact Action.applyAll_tolerant _ _

theorem Ends.tolerant {check : Query → StateM σ (List Message)} {o : Outcome} {s : σ}
    (h : Ends check x (.ok o) s) : o.query.tolerant = x.progress.query.tolerant := by
  cases h with
  | limited valid asked checked clean => exact Action.apply_tolerant _ _
  | _ => rfl

variable (f : Query → List Message)

/-- Where the checks have no state, the messages are always those about the query. -/
theorem path_messages (h : Relation.ReflTransGen (Advances fun q => pure (f q)) x y)
    (hx : x.progress.messages = f x.progress.query) : y.progress.messages = f y.progress.query := by
  induction h with
  | refl => exact hx
  | tail _ hstep _ =>
    cases hstep with
    | pass repairable made checked written kept => exact (congrArg Prod.fst checked).symm

theorem Ends.clean {o : Outcome} {s : σ} (h : Ends (fun q => pure (f q)) x (.ok o) s)
    (hx : x.progress.messages = f x.progress.query) (hvalid : o.status = .valid) :
    Message.errors (f o.query) = [] := by
  cases h with
  | valid valid =>
    have hnone := List.length_eq_zero_iff.mp (classify_valid_iff.mp valid)
    exact (congrArg Message.errors hx).symm.trans hnone
  | limitRefused valid checked =>
    have hnone := List.length_eq_zero_iff.mp (classify_valid_iff.mp valid)
    exact (congrArg Message.errors hx).symm.trans hnone
  | limited valid asked checked clean =>
    obtain rfl := congrArg Prod.fst checked
    exact clean
  | unfinished invalid => cases hvalid
  | takenBack repairable checked more => cases hvalid

section Kept

variable {f} {P : Query → Prop}

/-- What each pass keeps is kept by several of them. -/
theorem path_keeps (hpass : ∀ q, P q → P (Action.applyAll q (wantedActions (f q))))
    (h : Relation.ReflTransGen (Advances fun q => pure (f q)) x y)
    (hx : x.progress.messages = f x.progress.query) (hP : P x.progress.query) : P y.progress.query := by
  induction h with
  | refl => exact hP
  | tail hpath hstep ih =>
    have hmessages := path_messages f hpath hx
    cases hstep with
    | pass repairable made checked written kept =>
      have hnext := hpass _ ih
      rwa [← hmessages] at hnext

/-- What the passes and each correction keep holds of the query that a run ends with. -/
theorem run_keeps (hpass : ∀ q, P q → P (Action.applyAll q (wantedActions (f q))))
    (hlimit : ∀ q, P q → ∀ m ∈ f q, ∀ a ∈ m.action, P (a.apply q)) {bounds : Bounds} {q : Query}
    (hq : P q) {used : Int} {s : σ} {o : Outcome}
    (h : (run (fun q => pure (f q)) bounds q used s).1 = .ok o) : P o.query := by
  obtain ⟨last, hpath, hend⟩ := loop_traced (fun q => (pure (f q) : StateM σ _)) bounds.stallLimit
    (bounds.maxPasses - used).toNat { query := q, messages := f q, passes := used } s
  have hlast := path_keeps hpass hpath rfl hq
  have hmessages := path_messages f hpath rfl
  change Ends _ last (run (fun q => pure (f q)) bounds q used s).1 _ at hend
  rw [h] at hend
  cases hend with
  | limited valid asked checked clean =>
    -- The limit answers one of the messages about the query.
    obtain ⟨m, hm, haction⟩ := List.mem_map.mp (List.mem_of_mem_head? asked)
    have hwarning : m ∈ f _ := hmessages ▸ (List.mem_filter.mp hm).1
    exact hlimit _ hlast m hwarning _ haction
  | valid valid => exact hlast
  | limitRefused valid checked => exact hlast
  | unfinished invalid => exact hlast
  | takenBack repairable checked more => exact hlast

/-- A run does not fail if there is no fault in the messages about a query of which all holds that the passes
keep. -/
theorem run_ok (hpass : ∀ q, P q → P (Action.applyAll q (wantedActions (f q))))
    (hsafe : ∀ p : Progress, P p.query → p.messages = f p.query → ∀ e, ¬Fault p e) (bounds : Bounds) {q : Query}
    (hq : P q) (used : Int) (s : σ) : ∃ o, (run (fun q => pure (f q)) bounds q used s).1 = .ok o := by
  obtain ⟨last, hpath, hend⟩ := loop_traced (fun q => (pure (f q) : StateM σ _)) bounds.stallLimit
    (bounds.maxPasses - used).toNat { query := q, messages := f q, passes := used } s
  have hlast := path_keeps hpass hpath rfl hq
  have hmessages := path_messages f hpath rfl
  change Ends _ last (run (fun q => pure (f q)) bounds q used s).1 _ at hend
  cases hrun : (run (fun q => pure (f q)) bounds q used s).1 with
  | ok o => exact ⟨o, rfl⟩
  | error e =>
    rw [hrun] at hend
    exact absurd hend.fault (hsafe last.progress hlast hmessages e)

end Kept

/-- What an outcome is, given the query that it started from and the passes that it could take. -/
structure Checked (q : Query) (passes : Int) (o : Outcome) : Prop where
  status : o.status = if errorCount o.diagnostics = 0 then .valid else .needsRegeneration
  passes : o.passes ≤ passes
  clean : o.status = .valid → Message.errors (f o.query) = []
  tolerant : o.query.tolerant = q.tolerant

theorem run_checked {bounds : Bounds} {q : Query} {used : Int} {s : σ} {o : Outcome}
    (h : (run (fun q => pure (f q)) bounds q used s).1 = .ok o) :
    Checked f q (used + (bounds.maxPasses - used).toNat) o := by
  obtain ⟨last, hpath, hend⟩ := loop_traced (fun q => (pure (f q) : StateM σ _)) bounds.stallLimit
    (bounds.maxPasses - used).toNat { query := q, messages := f q, passes := used } s
  change Ends _ last (run (fun q => pure (f q)) bounds q used s).1 _ at hend
  rw [h] at hend
  have hpasses := hend.passes_le
  rw [path_passes hpath] at hpasses
  exact ⟨hend.status, hpasses, hend.clean f (path_messages f hpath rfl),
    hend.tolerant.trans (path_tolerant hpath)⟩

end Soql.Repair
