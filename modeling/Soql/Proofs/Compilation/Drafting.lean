import Soql.Proofs.Compilation.Steps
import Soql.Proofs.Query.RoundTrip
import Soql.Proofs.Repair.Checked
import Soql.Proofs.Validation.Messages

namespace Soql

open Repair

variable {σ : Type}

def TimelineEntry.isFinal : TimelineEntry → Bool
  | .final _ _ => true
  | _ => false

def TimelineEntry.isDraft : TimelineEntry → Bool
  | .draft _ _ _ => true
  | _ => false

/-- No draft among some entries is a query. -/
def Unread (timeline : List TimelineEntry) : Prop :=
  ∀ attempt text errors, .draft attempt text errors ∈ timeline → ∃ e, Query.parse text = .error e

structure Try.Gives (c : Compiler) (t : Try) (r : Compiled) : Prop where
  corrected : c.repaired t.query t.context = .ok t.outcome
  last : t.attempt = r.regenerations
  drafted : ∃ text, .draft t.attempt text [] ∈ r.timeline ∧ Query.parse text = .ok t.query
  query : r.query = some t.outcome.query.render
  strict : t.outcome.query.tolerant = false
  clean : Message.errors (c.validator.validate t.outcome.query t.context) = []

/-- What holds of a result, given what was known in the end and how often a coder was asked. -/
structure Delivered (c : Compiler) (r : Compiled) (x : Compilation) (asked : Nat) : Prop where
  valid_iff : r.status = .valid ↔ r.errors = []
  absent_iff : r.query = none ↔ r.status = .failed
  valid : r.status = .valid → r.tolerant = false ∧ ∃ t ∈ x.tries.getLast?, t.Gives c r
  tolerant : r.tolerant = true → r.status = .degraded ∧ Unread r.timeline ∧
    r.timeline.countP (·.isDraft) = r.regenerations + 1
  regenerations : (r.regenerations : Int) ≤ c.maxRegenerations
  asked : asked ≤ r.regenerations + 1
  passes : r.passes ≤ (r.regenerations + 1) * c.bounds.maxPasses
  final : ∃ before, r.timeline = before ++ [.final r.status r.query] ∧
    ∀ entry ∈ before, entry.isFinal = false

/-- What holds of a compilation with some further drafts left, given the calls and the passes that the
current draft may have taken. -/
structure Going (c : Compiler) (left asked passes : Nat) (x : Compilation) (n : Nat) : Prop where
  budget : x.regenerations + left = c.maxRegenerations.toNat
  asked : n ≤ x.regenerations + asked
  passes : x.passes ≤ (x.regenerations + passes : Nat) * c.bounds.maxPasses
  unfinished : ∀ entry ∈ x.timeline, entry.isFinal = false

def Wrong (x : Compilation) : Prop :=
  ∀ b ∈ x.best, errorCount b.diagnostics ≠ 0

def Halted (c : Compiler) : Known :=
  fun x n => ∃ left, Going c left 1 1 x n ∧ Wrong x

structure AtDraft (c : Compiler) (left asked : Nat) (x : Compilation) (n : Nat) : Prop where
  going : Going c left asked 0 x n
  wrong : Wrong x
  drafts : x.timeline.countP (·.isDraft) = x.regenerations
  unread : x.best = none → Unread x.timeline

structure Noted (c : Compiler) (left : Nat) (x : Compilation) (n : Nat) : Prop where
  going : Going c left 1 0 x n
  wrong : Wrong x
  drafts : x.timeline.countP (·.isDraft) = x.regenerations + 1

structure Recorded (c : Compiler) (left : Nat) (x : Compilation) (n : Nat) : Prop where
  going : Going c left 1 1 x n
  drafts : x.timeline.countP (·.isDraft) = x.regenerations + 1
  best : x.best ≠ none

section

variable {c : Compiler} {x : Compilation} {left asked passes n : Nat}

theorem Going.mono (h : Going c left asked passes x n) (hmax : 0 ≤ c.bounds.maxPasses)
    {asked' passes' : Nat} (hasked : asked ≤ asked') (hpasses : passes ≤ passes') :
    Going c left asked' passes' x n := by
  refine { h with asked := ?_, passes := ?_ }
  · have := h.asked
    omega
  · calc x.passes ≤ (x.regenerations + passes : Nat) * c.bounds.maxPasses := h.passes
      _ ≤ (x.regenerations + passes' : Nat) * c.bounds.maxPasses := by
        apply Int.mul_le_mul_of_nonneg_right _ hmax
        omega

/-- An entry that does not end the timeline is noted. -/
theorem Going.note (h : Going c left asked passes x n) {entry : TimelineEntry}
    (hentry : entry.isFinal = false) : Going c left asked passes (x.note entry) n := by
  refine { h with unfinished := ?_ }
  intro e he
  rcases List.mem_append.mp he with he | he
  · exact h.unfinished e he
  · obtain rfl := List.mem_singleton.mp he
    exact hentry

theorem Going.delivered (h : Going c left 1 1 x n) (hmax : 0 ≤ c.maxRegenerations)
    {status : Verdict} {query : Option String} {diagnostics : List Message} {tolerant : Bool}
    (valid_iff : status = .valid ↔ Message.errors diagnostics = [])
    (absent_iff : query = none ↔ status = .failed)
    (hvalid : status = .valid → tolerant = false ∧
      ∃ t ∈ x.tries.getLast?, t.Gives c (x.result status query diagnostics tolerant))
    (htolerant : tolerant = true → status = .degraded ∧ Unread x.timeline ∧
      x.timeline.countP (·.isDraft) = x.regenerations + 1) :
    Delivered c (x.result status query diagnostics tolerant) x n := by
  have hbudget := h.budget
  refine ⟨valid_iff, absent_iff, hvalid, ?_, ?_, h.asked, ?_, x.timeline, rfl, h.unfinished⟩
  -- The last entry is no draft, so that all that was said of drafts stays true.
  · intro ht
    obtain ⟨hs, hunread, hcount⟩ := htolerant ht
    refine ⟨hs, ?_, ?_⟩
    · intro attempt text errors hmem
      rcases List.mem_append.mp hmem with hmem | hmem
      · exact hunread attempt text errors hmem
      · cases List.mem_singleton.mp hmem
    · change (x.timeline ++ [_]).countP _ = x.regenerations + 1
      rw [List.countP_append, hcount]
      rfl
  · change (x.regenerations : Int) ≤ c.maxRegenerations
    omega
  · have hpasses := h.passes
    push_cast at hpasses
    exact hpasses

theorem Going.failed (h : Going c left 1 1 x n) (hmax : 0 ≤ c.maxRegenerations)
    {diagnostics : List Message} (hd : Message.errors diagnostics ≠ []) :
    Delivered c (x.failed diagnostics) x n :=
  h.delivered hmax (by simp [hd]) (by simp) (by simp) (by simp)

theorem Going.degraded (h : Going c left 1 1 x n) (hmax : 0 ≤ c.maxRegenerations) (hwrong : Wrong x)
    {more : List Message} (hmore : x.best = none → Message.errors more ≠ []) :
    Delivered c (x.degraded more) x n := by
  unfold Compilation.degraded
  cases hbest : x.best with
  | none => exact h.failed hmax (hmore hbest)
  | some best =>
    have hb : Message.errors (best.diagnostics ++ more) ≠ [] := by
      intro hnil
      rw [Message.errors_append, List.append_eq_nil_iff] at hnil
      exact hwrong best hbest (List.length_eq_zero_iff.mpr hnil.1)
    exact h.delivered hmax (by simp [hb]) (by simp) (by simp) (by simp)

theorem Going.aborted (h : Going c left 1 1 x n) (hmax : 0 ≤ c.maxRegenerations) {m : Message}
    (hm : m.isError = true) : Delivered c (x.aborted m) x n :=
  h.failed hmax (Message.errors_ne_nil hm (by simp))

/-- A compilation that stopped because of a failure of its collaborators delivers all the same. -/
theorem Halted.ended (h : Halted c x n) (hmax : 0 ≤ c.maxRegenerations) {f : Failure} {r : Compiled}
    (hr : Compiler.ended x (.error f) = .ok r) : Delivered c r x n := by
  obtain ⟨left, hgoing, hwrong⟩ := h
  cases f with
  | late reason =>
    cases hr
    exact hgoing.degraded hmax hwrong fun _ => Message.errors_ne_nil rfl (List.mem_singleton.mpr rfl)
  | unreachable capability reason =>
    cases hr
    exact hgoing.aborted hmax rfl
  | _ => cases hr

end

end Soql
