import Soql.Repair.Action

namespace Soql.Action

open Text

def newPath? : Action → Option String
  | swapField _ new _ => some new
  | fixPath _ corrected => some corrected
  | fixChildField _ _ new => some new
  | _ => none

theorem newPath?_of_template? {q : Query} {a : Action} {new : String} (h : new ∈ a.template? q) :
    new ∈ a.newPath? := by
  cases a with
  | swapField old path clauses => exact (Option.mem_ite_none_right.mp h).2
  | fixPath old path => exact (Option.mem_ite_none_right.mp h).2
  | fixChildField relationship old path => exact (Option.mem_ite_none_right.mp h).2
  | _ => exact absurd h (Option.not_mem_none _)

def Unreadable (f : Failure) (a : Action) : Prop :=
  ∃ new ∈ a.newPath?, ∃ e, Template.read new.toList = .error e ∧ f = .unreadable e

variable {q q' : Query} {a : Action} {actions : List Action} {f : Failure}

theorem perform_ok (h : perform q a = .ok q') : q' = a.apply q := by
  unfold perform at h
  split at h
  · cases h
  · cases h
    rfl

theorem perform_error (h : perform q a = .error f) : a.Unreadable f := by
  unfold perform at h
  split at h
  · rename_i e hread
    obtain ⟨new, hnew, herror⟩ := Option.map_eq_some_iff.mp hread
    cases h
    exact ⟨new, newPath?_of_template? hnew, e, herror, rfl⟩
  · cases h

/-- A path that is no template has a backslash. -/
theorem Unreadable.backslash (h : a.Unreadable f) : ∃ new ∈ a.newPath?, '\\' ∈ new.toList := by
  obtain ⟨new, hnew, e, herror, -⟩ := h
  refine ⟨new, hnew, Decidable.byContradiction ?_⟩
  intro hplain
  rw [Template.read_literal hplain] at herror
  cases herror

theorem perform_plain (h : ∀ new ∈ a.newPath?, '\\' ∉ new.toList) (q : Query) : perform q a = .ok (a.apply q) := by
  cases hperformed : perform q a with
  | ok next => rw [perform_ok hperformed]
  | error f =>
    obtain ⟨new, hnew, hbackslash⟩ := (perform_error hperformed).backslash
    exact absurd hbackslash (h new hnew)

theorem foldlM_perform_ok (h : actions.foldlM perform q = .ok q') : q' = actions.foldl apply q := by
  induction actions generalizing q with
  | nil => exact (Except.ok.inj h).symm
  | cons a actions ih =>
    rw [List.foldlM_cons] at h
    cases hfirst : perform q a with
    | error f =>
      rw [hfirst] at h
      cases h
    | ok next =>
      rw [hfirst] at h
      rw [List.foldl_cons, ← perform_ok hfirst]
      exact ih h

theorem foldlM_perform_error (h : actions.foldlM perform q = .error f) : ∃ a ∈ actions, a.Unreadable f := by
  induction actions generalizing q with
  | nil => cases h
  | cons a actions ih =>
    rw [List.foldlM_cons] at h
    cases hfirst : perform q a with
    | error g =>
      rw [hfirst] at h
      cases h
      exact ⟨a, List.mem_cons_self, perform_error hfirst⟩
    | ok next =>
      rw [hfirst] at h
      obtain ⟨b, hb, hunreadable⟩ := ih h
      exact ⟨b, List.mem_cons_of_mem a hb, hunreadable⟩

/-- Corrections are made in another order, but they are the same ones. -/
theorem mem_inOrder : a ∈ inOrder actions ↔ a ∈ actions := by
  simp only [inOrder, List.mem_flatMap, List.mem_filter, List.mem_eraseDups]
  constructor
  · rintro ⟨rank, -, ha, -⟩
    exact ha
  · intro ha
    refine ⟨a.rank, ?_, ha, beq_self_eq_true a.rank⟩
    cases a <;> simp [rank]

theorem performAll_ok (h : performAll q actions = .ok q') : q' = applyAll q actions :=
  foldlM_perform_ok h

theorem performAll_error (h : performAll q actions = .error f) : ∃ a ∈ actions, a.Unreadable f := by
  obtain ⟨a, ha, hunreadable⟩ := foldlM_perform_error h
  exact ⟨a, mem_inOrder.mp ha, hunreadable⟩

/-- Corrections are made if no path that they write has a backslash. -/
theorem performAll_plain (h : ∀ a ∈ actions, ∀ new ∈ a.newPath?, '\\' ∉ new.toList) (q : Query) :
    performAll q actions = .ok (applyAll q actions) := by
  cases hperformed : performAll q actions with
  | ok next => rw [performAll_ok hperformed]
  | error f =>
    obtain ⟨a, ha, hunreadable⟩ := performAll_error hperformed
    obtain ⟨new, hnew, hbackslash⟩ := hunreadable.backslash
    exact absurd hbackslash (h a ha new hnew)

end Soql.Action
