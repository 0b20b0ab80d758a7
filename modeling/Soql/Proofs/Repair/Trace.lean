import Mathlib.Logic.Relation
import Soql.Proofs.Projection
import Soql.Proofs.Repair.Performed
import Soql.Repair.Engine

namespace Soql.Repair

variable {σ : Type}

def errorCount (messages : List Message) : Nat :=
  (Message.errors messages).length

theorem classify_valid_iff {messages : List Message} :
    classify messages = .valid ↔ errorCount messages = 0 := by
  unfold errorCount
  rw [List.length_eq_zero_iff, ← List.isEmpty_iff]
  simp only [classify]
  split
  · simp_all
  · split <;> simp_all

def Progress.candidate (p : Progress) : Query :=
  Action.applyAll p.query (wantedActions p.messages)

def Progress.described (p : Progress) : List String :=
  (wantedActions p.messages).map Action.describe

def Progress.record (p : Progress) (messages : List Message) : Event :=
  .pass (p.passes + 1) (errorCount p.messages) (errorCount messages) p.described p.candidate.render
    (decide (errorCount p.messages < errorCount messages))

def Progress.keep (p : Progress) (messages : List Message) : Progress where
  query := p.candidate
  messages := messages
  passes := p.passes + 1
  stalls := if errorCount messages == errorCount p.messages then p.stalls + 1 else 0
  corrections := p.corrections ++ p.described
  events := p.events ++ [p.record messages]

def Progress.takeBack (p : Progress) (messages : List Message) : Progress :=
  { p with passes := p.passes + 1, events := p.events ++ [p.record messages] }

/-- The point that the work has come to: the passes that are left, the progress and the state of what
checks the query. -/
structure Point (σ : Type) where
  left : Nat
  progress : Progress
  state : σ

/-- One pass that is kept. -/
inductive Advances (check : Query → StateM σ (List Message)) : Point σ → Point σ → Prop
  | pass {left : Nat} {p : Progress} {s s' : σ} {messages : List Message}
    (repairable : classify p.messages = .repairable)
    (made : Action.performAll p.query (wantedActions p.messages) = .ok p.candidate)
    (checked : (check p.candidate).run s = (messages, s'))
    (written : isWritten (wantedActions p.messages) p.candidate = true)
    (kept : errorCount messages ≤ errorCount p.messages) :
    Advances check ⟨left + 1, p, s⟩ ⟨left, p.keep messages, s'⟩

def Progress.limited (p : Progress) (limits : List Message) (action : Action)
    (recheck : List Message) : Outcome where
  status := .valid
  query := action.apply p.query
  diagnostics := recheck.filter (!limits.contains ·) ++ limits
  passes := p.passes
  corrections := p.corrections ++ [action.describe]
  events := p.events ++ [.limit (action.apply p.query).render]

theorem Progress.errorCount_limited (p : Progress) (action : Action) {recheck : List Message}
    (hclean : Message.errors recheck = []) :
    errorCount (p.limited (limitWarnings p.messages) action recheck).diagnostics = 0 := by
  unfold errorCount
  rw [List.length_eq_zero_iff]
  unfold Message.errors at hclean ⊢
  rw [List.filter_eq_nil_iff] at hclean ⊢
  intro m hm
  rcases List.mem_append.mp hm with hm | hm
  · exact hclean m (List.mem_filter.mp hm).1
  · -- What a limit answers is a warning.
    have hwarning := (List.mem_filter.mp hm).2
    simp only [Bool.and_eq_true, Bool.not_eq_true'] at hwarning
    simp [hwarning.1]

/-- The step that ends the work, with an outcome or a failure. -/
inductive Ends (check : Query → StateM σ (List Message)) : Point σ → Except Failure Outcome → σ → Prop
  | valid {left : Nat} {p : Progress} {s : σ} (valid : classify p.messages = .valid) :
    Ends check ⟨left, p, s⟩ (.ok (p.finish .valid "")) s
  | limitRefused {left : Nat} {p : Progress} {s s' : σ} {action : Action} {recheck : List Message}
    (valid : classify p.messages = .valid)
    (checked : (check (action.apply p.query)).run s = (recheck, s')) :
    Ends check ⟨left, p, s⟩ (.ok (p.finish .valid "")) s'
  | limited {left : Nat} {p : Progress} {s s' : σ} {action : Action} {recheck : List Message}
    (valid : classify p.messages = .valid)
    (asked : some action ∈ ((limitWarnings p.messages).map (·.action)).head?)
    (checked : (check (action.apply p.query)).run s = (recheck, s'))
    (clean : Message.errors recheck = []) :
    Ends check ⟨left, p, s⟩ (.ok (p.limited (limitWarnings p.messages) action recheck)) s'
  | limitUnwritten {left : Nat} {p : Progress} {s s' : σ} {action : Action} {recheck : List Message}
    (valid : classify p.messages = .valid)
    (asked : some action ∈ ((limitWarnings p.messages).map (·.action)).head?)
    (checked : (check (action.apply p.query)).run s = (recheck, s'))
    (long : isWritten [action] (action.apply p.query) = false) :
    Ends check ⟨left, p, s⟩ (.error .tooLong) s'
  | unfinished {left : Nat} {p : Progress} {s : σ} {reason : String}
    (invalid : classify p.messages ≠ .valid) :
    Ends check ⟨left, p, s⟩ (.ok (p.finish .needsRegeneration reason)) s
  | refused {left : Nat} {p : Progress} {s : σ} {f : Failure}
    (repairable : classify p.messages = .repairable)
    (refused : Action.performAll p.query (wantedActions p.messages) = .error f) :
    Ends check ⟨left + 1, p, s⟩ (.error f) s
  | unwritten {left : Nat} {p : Progress} {s s' : σ} {messages : List Message}
    (repairable : classify p.messages = .repairable)
    (checked : (check p.candidate).run s = (messages, s'))
    (long : isWritten (wantedActions p.messages) p.candidate = false) :
    Ends check ⟨left + 1, p, s⟩ (.error .tooLong) s'
  | takenBack {left : Nat} {p : Progress} {s s' : σ} {messages : List Message}
    (repairable : classify p.messages = .repairable)
    (checked : (check p.candidate).run s = (messages, s'))
    (more : errorCount p.messages < errorCount messages) :
    Ends check ⟨left + 1, p, s⟩
      (.ok ((p.takeBack messages).finish .needsRegeneration "repair increased errors")) s'

variable {check : Query → StateM σ (List Message)} {x : Point σ} {o : Outcome} {s : σ}

/-- The status of an outcome says whether errors are left. -/
theorem Ends.status (h : Ends check x (.ok o) s) :
    o.status = if errorCount o.diagnostics = 0 then .valid else .needsRegeneration := by
  cases h with
  | valid valid => exact (if_pos (classify_valid_iff.mp valid)).symm
  | limitRefused valid checked => exact (if_pos (classify_valid_iff.mp valid)).symm
  | limited valid asked checked clean => exact (if_pos (Progress.errorCount_limited _ _ clean)).symm
  | unfinished invalid => exact (if_neg (mt classify_valid_iff.mpr invalid)).symm
  | takenBack repairable checked more =>
    have hinvalid : classify _ ≠ .valid := fun hv => by rw [repairable] at hv; cases hv
    exact (if_neg (mt classify_valid_iff.mpr hinvalid)).symm

theorem Ends.passes_le (h : Ends check x (.ok o) s) : o.passes ≤ x.progress.passes + x.left := by
  cases h with
  | valid valid => exact Int.le_add_of_nonneg_right (Int.natCast_nonneg _)
  | limitRefused valid checked => exact Int.le_add_of_nonneg_right (Int.natCast_nonneg _)
  | limited valid asked checked clean => exact Int.le_add_of_nonneg_right (Int.natCast_nonneg _)
  | unfinished invalid => exact Int.le_add_of_nonneg_right (Int.natCast_nonneg _)
  | @takenBack left p =>
    change p.passes + 1 ≤ p.passes + ((left + 1 : Nat) : Int)
    omega

/-- Why a query cannot be corrected: a correction that its errors call for writes a path that is no
template, or a number has more digits than are written. -/
inductive Fault (p : Progress) : Failure → Prop
  | unreadable {f : Failure} {a : Action} (wanted : a ∈ wantedActions p.messages) (unreadable : a.Unreadable f) :
    Fault p f
  | pass (long : isWritten (wantedActions p.messages) p.candidate = false) : Fault p .tooLong
  | limit {action : Action} (asked : some action ∈ ((limitWarnings p.messages).map (·.action)).head?)
    (long : isWritten [action] (action.apply p.query) = false) : Fault p .tooLong

theorem Ends.fault {f : Failure} (h : Ends check x (.error f) s) : Fault x.progress f := by
  cases h with
  | limitUnwritten valid asked checked long => exact .limit asked long
  | refused repairable refused =>
    obtain ⟨a, ha, hunreadable⟩ := Action.performAll_error refused
    exact .unreadable ha hunreadable
  | unwritten repairable checked long => exact .pass long

/-- A pass that is kept takes one of those that are left. -/
theorem path_passes {y : Point σ}
    (h : Relation.ReflTransGen (Advances check) x y) :
    y.progress.passes + y.left = x.progress.passes + x.left := by
  induction h with
  | refl => rfl
  | tail _ hstep ih =>
    rw [← ih]
    cases hstep with
    | @pass left p =>
      change p.passes + 1 + (left : Int) = p.passes + ((left + 1 : Nat) : Int)
      omega

section

variable (check : Query → StateM σ (List Message)) (stallLimit : Int)

theorem settleValid_ends {left : Nat} {p : Progress} (h : classify p.messages = .valid) (s : σ) :
    Ends check ⟨left, p, s⟩ ((settleValid check p).run s).1 ((settleValid check p).run s).2 := by
  unfold settleValid
  cases hlimits : limitWarnings p.messages with
  | nil => exact Ends.valid h
  | cons warning others =>
    cases haction : warning.action with
    | none =>
      simp only [haction]
      exact Ends.valid h
    | some action =>
      have hasked : some action ∈ ((limitWarnings p.messages).map (·.action)).head? := by simp [hlimits, haction]
      -- The limit is tried. It is kept if no error comes of it and its number can be written.
      cases hchecked : (check (action.apply p.query)).run s with
      | mk recheck s' =>
        simp only [haction, run_bind, hchecked]
        by_cases hclean : Message.errors recheck = []
        · rw [if_neg (by simp [hclean])]
          cases hwritten : isWritten [action] (action.apply p.query) with
          | true =>
            rw [Bool.not_true, if_neg Bool.false_ne_true, run_pure, ← hlimits]
            exact Ends.limited h hasked hchecked hclean
          | false => exact Ends.limitUnwritten h hasked hchecked hwritten
        · rw [if_pos (by simp [hclean]), run_pure]
          exact Ends.limitRefused h hchecked

theorem loop_valid {left : Nat} {p : Progress} (h : classify p.messages = .valid) :
    loop check stallLimit left p = settleValid check p := by
  unfold loop
  rw [h]

theorem loop_unrepairable {left : Nat} {p : Progress} (hv : classify p.messages ≠ .valid)
    (hr : classify p.messages ≠ .repairable) :
    loop check stallLimit left p = pure (.ok (p.finish .needsRegeneration "unrepairable errors")) := by
  unfold loop
  split <;> simp_all

theorem loop_spent {p : Progress} (h : classify p.messages = .repairable) :
    loop check stallLimit 0 p = pure (.ok (p.finish .needsRegeneration "pass budget spent")) := by
  unfold loop
  rw [h]

theorem loop_refused {left : Nat} {p : Progress} {f : Failure} (h : classify p.messages = .repairable)
    (refused : Action.performAll p.query (wantedActions p.messages) = .error f) :
    loop check stallLimit (left + 1) p = pure (.error f) := by
  unfold loop
  simp only [h, refused]

theorem loop_pass {left : Nat} {p : Progress} {s s' : σ} {messages : List Message}
    (h : classify p.messages = .repairable)
    (made : Action.performAll p.query (wantedActions p.messages) = .ok p.candidate)
    (checked : (check p.candidate).run s = (messages, s')) :
    (loop check stallLimit (left + 1) p).run s =
      if isWritten (wantedActions p.messages) p.candidate = false then (.error .tooLong, s')
      else if errorCount p.messages < errorCount messages then
        (.ok ((p.takeBack messages).finish .needsRegeneration "repair increased errors"), s')
      else if stallLimit ≤ (p.keep messages).stalls ∧ 0 < errorCount messages then
        (.ok ((p.keep messages).finish .needsRegeneration "repair stalled"), s')
      else (loop check stallLimit left (p.keep messages)).run s' := by
  conv =>
    lhs
    unfold loop
  simp only [h, made, run_bind, checked]
  change StateT.run (if !isWritten (wantedActions p.messages) p.candidate then pure (.error .tooLong)
    else if decide (errorCount messages > errorCount p.messages) then
      pure (.ok ((p.takeBack messages).finish .needsRegeneration "repair increased errors"))
    else if ((p.keep messages).stalls : Int) ≥ stallLimit && errorCount messages > 0 then
      pure (.ok ((p.keep messages).finish .needsRegeneration "repair stalled"))
    else loop check stallLimit left (p.keep messages)) s' = _
  -- The tests of the loop are those of the statement, in the same order.
  cases hwritten : isWritten (wantedActions p.messages) p.candidate with
  | false => rfl
  | true =>
    have hlong : ¬true = false := nofun
    rw [Bool.not_true, if_neg Bool.false_ne_true, if_neg hlong]
    by_cases hmore : errorCount p.messages < errorCount messages
    · rw [if_pos (by simpa using hmore), if_pos hmore, run_pure]
    · rw [if_neg (by simpa using hmore), if_neg hmore]
      by_cases hstalled : stallLimit ≤ (p.keep messages).stalls ∧ 0 < errorCount messages
      · rw [if_pos (by simpa using hstalled), if_pos hstalled, run_pure]
      · rw [if_neg (by simpa using hstalled), if_neg hstalled]

/-- The work keeps passes, one after another, until the step that ends it. -/
theorem loop_traced (left : Nat) (p : Progress) (s : σ) :
    ∃ last, Relation.ReflTransGen (Advances check) ⟨left, p, s⟩ last ∧
      Ends check last ((loop check stallLimit left p).run s).1
        ((loop check stallLimit left p).run s).2 := by
  induction left generalizing p s with
  | zero =>
    refine ⟨⟨0, p, s⟩, Relation.ReflTransGen.refl, ?_⟩
    by_cases hv : classify p.messages = .valid
    · rw [loop_valid check stallLimit hv]
      exact settleValid_ends check hv s
    · by_cases hr : classify p.messages = .repairable
      · rw [loop_spent check stallLimit hr]
        exact Ends.unfinished hv
      · rw [loop_unrepairable check stallLimit hv hr]
        exact Ends.unfinished hv
  | succ left ih =>
    by_cases hv : classify p.messages = .valid
    · rw [loop_valid check stallLimit hv]
      exact ⟨_, Relation.ReflTransGen.refl, settleValid_ends check hv s⟩
    by_cases hr : classify p.messages = .repairable
    case neg =>
      rw [loop_unrepairable check stallLimit hv hr]
      exact ⟨_, Relation.ReflTransGen.refl, Ends.unfinished hv⟩
    cases hmade : Action.performAll p.query (wantedActions p.messages) with
    | error f =>
      rw [loop_refused check stallLimit hr hmade]
      exact ⟨_, Relation.ReflTransGen.refl, Ends.refused hr hmade⟩
    | ok candidate =>
      obtain rfl : candidate = p.candidate := Action.performAll_ok hmade
      cases hchecked : (check p.candidate).run s with
      | mk messages s' =>
        rw [loop_pass check stallLimit hr hmade hchecked]
        cases hwritten : isWritten (wantedActions p.messages) p.candidate with
        | false => exact ⟨_, Relation.ReflTransGen.refl, Ends.unwritten hr hchecked hwritten⟩
        | true =>
          have hlong : ¬true = false := nofun
          rw [if_neg hlong]
          by_cases hmore : errorCount p.messages < errorCount messages
          · rw [if_pos hmore]
            exact ⟨_, Relation.ReflTransGen.refl, Ends.takenBack hr hchecked hmore⟩
          · rw [if_neg hmore]
            -- The pass is kept, and the work may stall here or go on.
            have hstep : Advances check ⟨left + 1, p, s⟩ ⟨left, p.keep messages, s'⟩ :=
              Advances.pass hr hmade hchecked hwritten (Nat.le_of_not_lt hmore)
            by_cases hstalled : stallLimit ≤ (p.keep messages).stalls ∧ 0 < errorCount messages
            · rw [if_pos hstalled]
              refine ⟨_, Relation.ReflTransGen.single hstep, Ends.unfinished ?_⟩
              rw [ne_eq, classify_valid_iff]
              exact Nat.pos_iff_ne_zero.mp hstalled.2
            · rw [if_neg hstalled]
              obtain ⟨last, hpath, hend⟩ := ih (p.keep messages) s'
              exact ⟨last, Relation.ReflTransGen.head hstep hpath, hend⟩

end

end Soql.Repair
