import Soql.Proofs.Repair.Fits
import Soql.Proofs.Repair.Replay
import Soql.Proofs.Validation.Limits

namespace Soql

open Query Message

namespace Message

def setsLimit (m : Message) : Bool :=
  match m.action with
  | some (.applyLimit _) => true
  | _ => false

theorem setsLimit_error (rule text : String) {action : Option Action}
    (h : ∀ a ∈ action, ∀ n, a ≠ .applyLimit n) : (error rule text action).setsLimit = false := by
  cases action with
  | none => rfl
  | some a =>
    cases a with
    | applyLimit n => exact absurd rfl (h _ rfl n)
    | _ => rfl

theorem setsLimit_map (rule text : String) {α : Type} {f : α → Action} (found : Option α)
    (h : ∀ a n, f a ≠ .applyLimit n) : (error rule text (found.map f)).setsLimit = false := by
  apply setsLimit_error
  intro action haction
  obtain ⟨a, -, rfl⟩ := Option.map_eq_some_iff.mp haction
  exact h a

end Message

namespace Action

theorem apply_limit (q : Query) {a : Action} (h : ∀ n, a ≠ .applyLimit n) :
    (a.apply q).limit = q.limit := by
  cases a with
  | swapObject old new =>
    simp only [apply]
    split <;> rfl
  | applyLimit n => exact absurd rfl (h n)
  | _ => rfl

theorem applyAll_limit (q : Query) {actions : List Action} (h : ∀ a ∈ actions, ∀ n, a ≠ .applyLimit n) :
    (applyAll q actions).limit = q.limit := by
  have hinOrder : ∀ a ∈ inOrder actions, ∀ n, a ≠ .applyLimit n := fun a ha => h a (mem_inOrder.mp ha)
  unfold applyAll
  generalize inOrder actions = ordered at hinOrder
  induction ordered generalizing q with
  | nil => rfl
  | cons a ordered ih =>
    obtain ⟨hfirst, hrest⟩ := List.forall_mem_cons.mp hinOrder
    exact (ih _ hrest).trans (apply_limit q hfirst)

end Action

namespace Validator

variable (q : Query) (context : Context) (main : SObject)

theorem syntaxRules_setsLimit : ∀ m ∈ syntaxRules q, m.setsLimit = false := by
  intro m hm
  simp only [syntaxRules, List.mem_append] at hm
  rcases hm with ((hm | hm) | hm) | hm
  · grind [aliasRule, error, setsLimit]
  · obtain ⟨c, -, rfl⟩ := List.mem_map.mp hm
    rfl
  · grind [havingRule, error, setsLimit]
  · obtain ⟨c, -, hc⟩ := List.mem_filterMap.mp hm
    grind [likeIdError, error, setsLimit]

theorem toolingRule_setsLimit (name : String) : ∀ m ∈ toolingRule q name, m.setsLimit = false := by
  intro m hm
  unfold toolingRule at hm
  split at hm
  · obtain ⟨problem, -, rfl⟩ := List.mem_map.mp hm
    rfl
  · cases hm

theorem mainObjectOf_setsLimit : ∀ m ∈ (mainObjectOf q context).2, m.setsLimit = false := by
  intro m hm
  unfold mainObjectOf at hm
  grind [error, setsLimit]

theorem pathRule_setsLimit : ∀ m ∈ pathRule q main context, m.setsLimit = false := by
  intro m hm
  obtain ⟨r, -, hr⟩ := List.mem_filterMap.mp hm
  split at hr
  · cases hr
  · split at hr
    · cases hr
    · obtain rfl := Option.some.inj hr
      unfold pathError
      split
      · exact setsLimit_map _ _ _ fun _ _ => Action.noConfusion
      · exact setsLimit_map _ _ _ fun _ _ => Action.noConfusion

theorem branchErrors_setsLimit (relationship : String) (targets : List (String × String))
    (branch : TypeBranch) : ∀ m ∈ branchErrors context relationship targets branch,
      m.setsLimit = false := by
  intro m hm
  unfold branchErrors at hm
  split at hm
  · obtain rfl := List.mem_singleton.mp hm
    rfl
  · split at hm
    · cases hm
    · obtain ⟨f, -, rfl⟩ := List.mem_map.mp hm
      rfl

theorem typeOfRule_setsLimit : ∀ m ∈ typeOfRule q main context, m.setsLimit = false := by
  intro m hm
  obtain ⟨⟨relationship, branches⟩, -, hm⟩ := List.mem_flatMap.mp hm
  dsimp only at hm
  split at hm
  · obtain rfl := List.mem_singleton.mp hm
    rfl
  · obtain ⟨branch, -, hm⟩ := List.mem_flatMap.mp hm
    exact branchErrors_setsLimit context relationship _ branch m hm

theorem childErrors_setsLimit (link : Option ChildLink) (inner : InnerQuery) :
    ∀ m ∈ childErrors context link inner, m.setsLimit = false := by
  intro m hm
  unfold childErrors at hm
  split at hm
  · obtain ⟨r, -, hr⟩ := List.mem_filterMap.mp hm
    split at hr
    · cases hr
    · obtain rfl := Option.some.inj hr
      exact setsLimit_map _ _ _ fun _ _ => Action.noConfusion
  · cases hm

theorem childRule_setsLimit : ∀ m ∈ childRule q main context, m.setsLimit = false := by
  intro m hm
  obtain ⟨inner, -, hm⟩ := List.mem_flatMap.mp hm
  dsimp only at hm
  split at hm
  · exact childErrors_setsLimit context _ inner m hm
  · split at hm
    · rcases List.mem_cons.mp hm with rfl | hm
      · rfl
      · exact childErrors_setsLimit context _ inner m hm
    · obtain rfl := List.mem_singleton.mp hm
      rfl

theorem junctionRule_setsLimit : ∀ m ∈ junctionRule q main context, m.setsLimit = false := by
  intro m hm
  obtain ⟨r, -, hr⟩ := List.mem_filterMap.mp hm
  obtain ⟨junction, -, rfl⟩ := Option.map_eq_some_iff.mp hr
  unfold junctionError
  dsimp only
  split
  · exact setsLimit_map _ _ _ fun _ _ => Action.noConfusion
  · rfl

theorem aggregateRule_setsLimit : ∀ m ∈ aggregateRule q, m.setsLimit = false := by
  intro m hm
  unfold aggregateRule at hm
  split at hm
  · rcases List.mem_append.mp hm with hm | hm
    · grind [error, setsLimit]
    · obtain ⟨item, -, hitem⟩ := List.mem_filterMap.mp hm
      cases item <;> grind [groupingError, ungrouped, error, setsLimit]
  · cases hm

theorem semiJoinRule_setsLimit : ∀ m ∈ semiJoinRule q context, m.setsLimit = false := by
  intro m hm
  obtain ⟨join, -, hm⟩ := List.mem_flatMap.mp hm
  dsimp only at hm
  split at hm
  · rcases List.mem_append.mp hm with hm | hm
    · grind [error, setsLimit]
    · obtain ⟨r, -, hr⟩ := List.mem_filterMap.mp hm
      grind [error, setsLimit]
  · grind [error, setsLimit]

theorem literalRule_setsLimit (owner : Option SObject) :
    ∀ m ∈ literalRule q owner context, m.setsLimit = false := by
  intro m hm
  obtain ⟨⟨o, c⟩, -, hm⟩ := List.mem_flatMap.mp hm
  obtain ⟨literal, -, rfl⟩ := List.mem_map.mp hm
  rfl

theorem picklistRule_setsLimit : ∀ m ∈ picklistRule q main context, m.setsLimit = false := by
  intro m hm
  obtain ⟨c, -, hm⟩ := List.mem_flatMap.mp hm
  unfold picklistErrors at hm
  split at hm
  · split at hm
    · split at hm
      · obtain ⟨literal, -, rfl⟩ := List.mem_map.mp hm
        unfold valueError
        dsimp only
        split <;> rfl
      · cases hm
    · cases hm
  · cases hm

theorem laterErrors_setsLimit : ∀ m ∈ laterErrors q context, m.setsLimit = false := by
  have hobject := mainObjectOf_setsLimit q context
  simp only [laterErrors, List.forall_mem_append]
  generalize mainObjectOf q context = found at hobject ⊢
  obtain ⟨main, objectErrors⟩ := found
  cases main with
  | none =>
    have hnone : ∀ m ∈ ([] : List Message), m.setsLimit = false := List.forall_mem_nil _
    exact ⟨⟨⟨⟨⟨⟨⟨⟨hobject, hnone⟩, hnone⟩, hnone⟩, hnone⟩, aggregateRule_setsLimit q⟩,
      semiJoinRule_setsLimit q context⟩, literalRule_setsLimit q context none⟩, hnone⟩
  | some o =>
    exact ⟨⟨⟨⟨⟨⟨⟨⟨hobject, pathRule_setsLimit q context o⟩, typeOfRule_setsLimit q context o⟩,
      childRule_setsLimit q context o⟩, junctionRule_setsLimit q context o⟩, aggregateRule_setsLimit q⟩,
      semiJoinRule_setsLimit q context⟩, literalRule_setsLimit q context _⟩,
      picklistRule_setsLimit q context o⟩

/-- Only what is said about the number of records sets a limit. -/
theorem otherMessages_setsLimit : ∀ m ∈ otherMessages q context, m.setsLimit = false := by
  simp only [otherMessages, List.forall_mem_append]
  refine ⟨⟨⟨syntaxRules_setsLimit q, toolingRule_setsLimit q _⟩, laterErrors_setsLimit q context⟩, ?_⟩
  intro m hm
  obtain ⟨c, -, rfl⟩ := List.mem_map.mp hm
  rfl

theorem limitMessages_isError (v : Validator) : ∀ m ∈ limitMessages q context v, m.isError = false := by
  intro m hm
  unfold limitMessages at hm
  split at hm
  · cases hm
  · grind [limitRule, limitWarning, isError]

/-- No pass changes the limit of a query. -/
theorem applyWanted_limit (v : Validator) :
    (Action.applyAll q (Repair.wantedActions (v.validate q context))).limit = q.limit := by
  apply Action.applyAll_limit
  rintro a ha n rfl
  obtain ⟨m, hm, haction⟩ := List.mem_filterMap.mp (List.mem_eraseDups.mp ha)
  obtain ⟨hm, herror⟩ := List.mem_filter.mp hm
  -- Only errors are corrected in a pass, and what sets a limit is a warning.
  rw [validate_eq, List.mem_append] at hm
  rcases hm with hm | hm
  · have hsets := otherMessages_setsLimit q context m hm
    simp [setsLimit, haction] at hsets
  · rw [limitMessages_isError q context v m hm] at herror
    cases herror

def holdsFew (v : Validator) : Bool :=
  ((context.get? q.object).bind (·.recordCount)).any (· ≤ v.maxRows)

def askedLimit (v : Validator) : Option Int :=
  if needsNoLimit q context then none
  else match q.limit with
    | some n => if v.maxRows < n then some v.maxRows else none
    | none => if holdsFew q context v then none else some v.usualLimit

/-- Without errors, a query's object is the one of its name. -/
theorem mainObjectOf_of_clean (h : Message.errors (mainObjectOf q context).2 = []) :
    (mainObjectOf q context).1 = context.get? q.object := by
  revert h
  unfold mainObjectOf
  cases hmain : context.get? q.object with
  | some o => exact fun _ => rfl
  | none =>
    dsimp only
    split
    · exact fun _ => rfl
    · split
      · intro h
        simp [Message.errors, Message.error, isError] at h
      · exact fun _ => rfl

/-- The rule about the number of records asks for the limit that is wanted. -/
theorem limitMessages_asked {v : Validator} (h : Message.errors (v.validate q context) = []) :
    (askedLimit q context v = none ∧ limitMessages q context v = []) ∨
      ∃ n text, askedLimit q context v = some n ∧ limitMessages q context v = [limitWarning text n] := by
  -- The rule goes by the object that was meant, which differs only where the name is an error.
  have hobject : (mainObjectOf q context).1 = context.get? q.object := by
    apply mainObjectOf_of_clean
    rw [validate_eq, Message.errors_append, List.append_eq_nil_iff] at h
    simp only [otherMessages, laterErrors, Message.errors_append, List.append_eq_nil_iff] at h
    obtain ⟨⟨⟨-, ⟨⟨⟨⟨⟨⟨⟨⟨hobject, -⟩, -⟩, -⟩, -⟩, -⟩, -⟩, -⟩, -⟩⟩, -⟩, -⟩ := h
    exact hobject
  unfold askedLimit limitMessages
  by_cases hneed : needsNoLimit q context = true
  · rw [if_pos hneed, if_pos hneed]
    exact .inl ⟨rfl, rfl⟩
  · rw [if_neg hneed, if_neg hneed, limitRule, hobject]
    cases hlimit : q.limit with
    | some n =>
      by_cases hover : v.maxRows < n
      · exact .inr ⟨_, _, if_pos hover, if_pos hover⟩
      · exact .inl ⟨if_neg hover, if_neg hover⟩
    | none =>
      by_cases hfew : holdsFew q context v = true
      · exact .inl ⟨if_pos hfew, if_pos hfew⟩
      · exact .inr ⟨_, _, if_neg hfew, if_neg hfew⟩

def settledLimit (v : Validator) (written : Option Int) : Option Int :=
  if needsNoLimit q context then written
  else match written with
    | some n => some (min n v.maxRows)
    | none => if holdsFew q context v then none else some v.usualLimit

theorem withLimit_asked (v : Validator) :
    (Repair.withLimit (askedLimit q context v) q).limit = settledLimit q context v q.limit := by
  unfold askedLimit settledLimit
  split
  · rfl
  · cases hlimit : q.limit with
    | some n =>
      dsimp only
      split
      next hover =>
        rw [Int.min_eq_right (Int.le_of_lt hover)]
        rfl
      next hover =>
        rw [Int.min_eq_left (Int.not_lt.mp hover)]
        exact hlimit
    | none =>
      dsimp only
      split
      · exact hlimit
      · rfl

/-- A limit leaves all else as it is. -/
theorem settledLimit_withLimit (v : Validator) (limit written : Option Int) :
    settledLimit (Repair.withLimit limit q) context v written = settledLimit q context v written := by
  cases limit <;> rfl

/-- A limit that is asked for makes no query invalid. -/
theorem limited_clean {v : Validator} (h : Message.errors (v.validate q context) = []) {n : Int}
    (hasked : askedLimit q context v = some n) :
    Message.errors (v.validate ((Action.applyLimit n).apply q) context) = [] := by
  have hneed : needsNoLimit q context = false := by
    rw [← Bool.not_eq_true]
    intro hneed
    rw [askedLimit, if_pos hneed] at hasked
    cases hasked
  -- What is said about the number of records is never an error.
  have hnone : ∀ q', Message.errors (limitMessages q' context v) = [] := by
    intro q'
    rw [Message.errors, List.filter_eq_nil_iff]
    intro m hm
    rw [limitMessages_isError q' context v m hm]
    exact Bool.false_ne_true
  rw [validate_eq, Message.errors_append, List.append_eq_nil_iff] at h ⊢
  exact ⟨(otherMessages_limit q context hneed n).symm ▸ h.1, hnone _⟩

/-- Where no errors are left, the limit that is asked for is all that is still to be set, if it can be
written. -/
theorem settleValid_asked {v : Validator} {p : Repair.Progress}
    (hmessages : p.messages = v.validate p.query context)
    (hclean : Message.errors (v.validate p.query context) = []) (s : Unit) :
    (∃ o, ((Repair.settleValid (fun q => (pure (v.validate q context) : StateM Unit _)) p).run s).1 = .ok o ∧
        o.query = Repair.withLimit (askedLimit p.query context v) p.query) ∨
      ∃ n, askedLimit p.query context v = some n ∧
        Repair.isWritten [.applyLimit n] ((Action.applyLimit n).apply p.query) = false ∧
        ((Repair.settleValid (fun q => (pure (v.validate q context) : StateM Unit _)) p).run s).1 =
          .error .tooLong := by
  -- Either no limit is asked for, or just one, and setting it brings no error.
  rcases limitMessages_asked p.query context hclean with ⟨hasked, hnone⟩ | ⟨n, text, hasked, hsome⟩
  · have hlimits : Repair.limitWarnings p.messages = [] := by
      rw [hmessages, validate_eq, hnone, List.append_nil, otherMessages_limitless]
    rw [hasked, Repair.settleValid_unlimited (fun q => v.validate q context) hlimits]
    exact .inl ⟨_, rfl, rfl⟩
  · have hlimits : Repair.limitWarnings p.messages = [limitWarning text n] := by
      rw [hmessages, validate_eq, hsome, Repair.limitWarnings_append, otherMessages_limitless]
      rfl
    rw [hasked, Repair.settleValid_limited (fun q => v.validate q context) hlimits rfl rfl
      (limited_clean p.query context hclean hasked)]
    cases hwritten : Repair.isWritten [.applyLimit n] ((Action.applyLimit n).apply p.query) with
    | true => exact .inl ⟨_, rfl, rfl⟩
    | false => exact .inr ⟨n, rfl, hwritten, rfl⟩

/-- The limit of a query that was corrected well. -/
theorem corrected_limit {v : Validator} {bounds : Repair.Bounds} {q : Query} {used : Int}
    {o : Repair.Outcome} (h : corrected context v bounds q used = .ok o) (hvalid : o.status = .valid) :
    o.query.limit = settledLimit o.query context v q.limit := by
  -- The passes keep the limit as it was written, and the last step sets it.
  obtain ⟨p, s, hlimit, hmessages, hclean, hrun⟩ := Repair.run_settles (fun q => v.validate q context)
    (P := fun q' => q'.limit = q.limit) (fun q' hq' => (applyWanted_limit q' context v).trans hq') rfl h hvalid
  unfold corrected at h
  rw [hrun] at h
  rcases settleValid_asked context hmessages hclean s with ⟨o', ho', hquery⟩ | ⟨n, -, -, htooLong⟩
  · obtain rfl := Except.ok.inj (ho'.symm.trans h)
    rw [hquery, settledLimit_withLimit, withLimit_asked, hlimit]
  · cases htooLong.symm.trans h

/-- The query asks for no more records than the ceiling allows, or needs no limit. -/
def WithinCeiling (v : Validator) : Prop :=
  needsNoLimit q context = true ∨
    (∃ n, q.limit = some n ∧ n ≤ v.maxRows) ∨ (q.limit = none ∧ holdsFew q context v = true)

/-- The limit of a query that was corrected well is the one that was written, cut to the ceiling, or the usual
one. So the query is within the ceiling exactly where the usual limit is, or is not needed. -/
theorem corrected_withinCeiling_iff {v : Validator} {bounds : Repair.Bounds} {q : Query} {used : Int}
    {o : Repair.Outcome} (h : corrected context v bounds q used = .ok o) (hvalid : o.status = .valid) :
    o.query.limit = settledLimit o.query context v q.limit ∧
      (WithinCeiling o.query context v ↔
        v.usualLimit ≤ v.maxRows ∨ q.limit ≠ none ∨ needsNoLimit o.query context = true ∨
          holdsFew o.query context v = true) := by
  have hlimit := corrected_limit context h hvalid
  refine ⟨hlimit, ?_⟩
  unfold WithinCeiling
  rw [hlimit]
  unfold settledLimit
  by_cases hneed : needsNoLimit o.query context = true
  · simp only [hneed, true_or, or_true]
  · rw [if_neg hneed]
    cases q.limit with
    | some n =>
      refine iff_of_true (.inr (.inl ⟨_, rfl, Int.min_le_right ..⟩)) (.inr (.inl ?_))
      exact Option.some_ne_none n
    | none =>
      dsimp only
      by_cases hfew : holdsFew o.query context v = true
      · simp only [hfew, if_true, and_self, or_true]
      · simp [hneed, hfew]

/-- A limit above the ceiling is cut to it, though the usual limit is above the ceiling as well. -/
theorem corrected_withinCeiling_iff_cut : ∃ q o, parse "SELECT Ids FROM C LIMIT 60" = .ok q ∧
    corrected parentAndChild ⟨5, 3⟩ {} q 0 = .ok o ∧ o.status = .valid ∧ o.query.limit = some 3 ∧
    o.query.limit = settledLimit o.query parentAndChild ⟨5, 3⟩ q.limit ∧
    (WithinCeiling o.query parentAndChild ⟨5, 3⟩ ↔
      (5 : Int) ≤ 3 ∨ q.limit ≠ none ∨ needsNoLimit o.query parentAndChild = true ∨
        holdsFew o.query parentAndChild ⟨5, 3⟩ = true) := by
  obtain ⟨q, hq, hcorrected⟩ := exists_ok_of_any (r := parse "SELECT Ids FROM C LIMIT 60")
    (p := fun q => (corrected parentAndChild ⟨5, 3⟩ {} q 0).toOption.any fun o =>
      o.status == .valid && o.query.limit == some 3) (by decide +kernel)
  obtain ⟨o, ho, hboth⟩ := exists_ok_of_any hcorrected
  rw [Bool.and_eq_true, beq_iff_eq, beq_iff_eq] at hboth
  exact ⟨q, o, hq, ho, hboth.1, hboth.2, corrected_withinCeiling_iff parentAndChild ho hboth.1⟩

/-- A usual limit above the ceiling is set where there was no limit, and nothing cuts it. -/
theorem corrected_aboveCeiling : ∃ q o, parse "SELECT Id FROM C" = .ok q ∧
    corrected parentAndChild ⟨5, 3⟩ {} q 0 = .ok o ∧ o.status = .valid ∧ o.query.limit = some 5 ∧
    ¬WithinCeiling o.query parentAndChild ⟨5, 3⟩ := by
  obtain ⟨q, hq, hcorrected⟩ := exists_ok_of_any (r := parse "SELECT Id FROM C")
    (p := fun q => (corrected parentAndChild ⟨5, 3⟩ {} q 0).toOption.any fun o =>
      o.status == .valid && o.query.limit == some 5 && !needsNoLimit o.query parentAndChild) (by decide +kernel)
  obtain ⟨o, ho, hall⟩ := exists_ok_of_any hcorrected
  rw [Bool.and_eq_true, Bool.and_eq_true, beq_iff_eq, beq_iff_eq, Bool.not_eq_true'] at hall
  refine ⟨q, o, hq, ho, hall.1.1, hall.1.2, ?_⟩
  rintro (hneed | ⟨n, hn, hle⟩ | ⟨hnone, -⟩)
  · rw [hneed] at hall
    cases hall.2
  · obtain rfl : 5 = n := Option.some.inj (hall.1.2.symm.trans hn)
    exact absurd hle (by decide)
  · rw [hall.1.2] at hnone
    cases hnone

end Validator

end Soql
