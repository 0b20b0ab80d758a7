import Soql.Proofs.Repair.Stable
import Soql.Proofs.Validation.Contract

namespace Soql

open Query Message

namespace Validator

variable (q : Query) (context : Context) (main : SObject)

theorem syntaxRules_onlyErrors : OnlyErrors (syntaxRules q) := by
  refine onlyErrors_append (onlyErrors_append (onlyErrors_append ?_ ?_) ?_) ?_
  · unfold aliasRule
    split
    · exact onlyErrors_singleton rfl
    · exact onlyErrors_nil
  · exact onlyErrors_map fun _ => rfl
  · unfold havingRule
    split
    · exact onlyErrors_singleton rfl
    · exact onlyErrors_nil
  · apply onlyErrors_filterMap
    intro c m hm
    grind [likeIdError, Message.error, Message.isError]

theorem toolingRule_onlyErrors (name : String) : OnlyErrors (toolingRule q name) := by
  unfold toolingRule
  split
  · exact onlyErrors_map fun _ => rfl
  · exact onlyErrors_nil

theorem mainObjectOf_onlyErrors : OnlyErrors (mainObjectOf q context).2 := by
  unfold mainObjectOf
  split
  · exact onlyErrors_nil
  · dsimp only
    split
    · exact onlyErrors_nil
    · split
      · exact onlyErrors_singleton rfl
      · exact onlyErrors_singleton rfl

theorem pathRule_onlyErrors : OnlyErrors (pathRule q main context) := by
  apply onlyErrors_filterMap
  intro r m hm
  split at hm
  · cases hm
  · split at hm
    · cases hm
    · obtain rfl := Option.some.inj hm
      unfold pathError
      split <;> rfl

theorem typeOfRule_onlyErrors : OnlyErrors (typeOfRule q main context) := by
  apply onlyErrors_flatMap
  rintro ⟨relationship, branches⟩
  dsimp only
  split
  · exact onlyErrors_singleton rfl
  · apply onlyErrors_flatMap
    intro branch
    unfold branchErrors
    split
    · exact onlyErrors_singleton rfl
    · split
      · exact onlyErrors_nil
      · exact onlyErrors_map fun _ => rfl

theorem childErrors_onlyErrors (link : Option ChildLink) (inner : InnerQuery) :
    OnlyErrors (childErrors context link inner) := by
  unfold childErrors
  split
  · apply onlyErrors_filterMap
    intro r m hm
    split at hm
    · cases hm
    · obtain rfl := Option.some.inj hm
      rfl
  · exact onlyErrors_nil

theorem childRule_onlyErrors : OnlyErrors (childRule q main context) := by
  apply onlyErrors_flatMap
  intro inner
  dsimp only
  split
  · exact childErrors_onlyErrors context _ inner
  · split
    · exact onlyErrors_cons rfl (childErrors_onlyErrors context _ inner)
    · exact onlyErrors_singleton rfl

theorem junctionRule_onlyErrors : OnlyErrors (junctionRule q main context) := by
  apply onlyErrors_filterMap
  intro r m hm
  obtain ⟨junction, -, rfl⟩ := Option.map_eq_some_iff.mp hm
  rfl

theorem aggregateRule_onlyErrors : OnlyErrors (aggregateRule q) := by
  unfold aggregateRule
  split
  · apply onlyErrors_append
    · split
      · exact onlyErrors_nil
      · exact onlyErrors_singleton rfl
    · apply onlyErrors_filterMap
      intro item m hm
      cases item <;> grind [groupingError, ungrouped, Message.error, Message.isError]
  · exact onlyErrors_nil

theorem semiJoinRule_onlyErrors : OnlyErrors (semiJoinRule q context) := by
  apply onlyErrors_flatMap
  intro join
  dsimp only
  split
  · apply onlyErrors_append
    · split
      · exact onlyErrors_nil
      · exact onlyErrors_singleton rfl
    · apply onlyErrors_filterMap
      intro r m hm
      split at hm
      · cases hm
      · obtain rfl := Option.some.inj hm
        rfl
  · split
    · exact onlyErrors_nil
    · exact onlyErrors_singleton rfl

theorem literalRule_onlyErrors (owner : Option SObject) : OnlyErrors (literalRule q owner context) :=
  onlyErrors_flatMap fun _ => onlyErrors_map fun _ => rfl

theorem picklistRule_onlyErrors : OnlyErrors (picklistRule q main context) := by
  apply onlyErrors_flatMap
  intro c
  unfold picklistErrors
  split
  · split
    · split
      · apply onlyErrors_map
        intro literal
        unfold valueError
        dsimp only
        split <;> rfl
      · exact onlyErrors_nil
    · exact onlyErrors_nil
  · exact onlyErrors_nil

theorem wildcardRule_limitless : Repair.limitWarnings (wildcardRule q) = [] := by
  rw [Repair.limitWarnings, List.filter_eq_nil_iff]
  intro m hm
  obtain ⟨c, -, rfl⟩ := List.mem_map.mp hm
  simp

def mainName : String :=
  ((mainObjectOf q context).1.map (·.name)).getD q.object

def laterErrors : List Message :=
  let (main, objectErrors) := mainObjectOf q context
  let withMain (rule : Query → SObject → Context → List Message) : List Message :=
    match main with
    | some o => rule q o context
    | none => []
  objectErrors ++ withMain pathRule ++ withMain typeOfRule ++ withMain childRule ++
    withMain junctionRule ++ aggregateRule q ++ semiJoinRule q context ++ literalRule q main context ++
    withMain picklistRule

def otherMessages : List Message :=
  syntaxRules q ++ toolingRule q (mainName q context) ++ laterErrors q context ++ wildcardRule q

def needsNoLimit : Bool :=
  Vocabulary.toolingObjects.contains (mainName q context) || (q.hasAggregates && q.groupBy.isEmpty)

def limitMessages (v : Validator) : List Message :=
  if needsNoLimit q context then []
  else limitRule v q (mainObjectOf q context).1 (mainName q context)

theorem validate_eq (v : Validator) :
    v.validate q context = otherMessages q context ++ limitMessages q context v := by
  simp only [validate, governorRule, otherMessages, laterErrors, limitMessages, needsNoLimit, mainName,
    List.append_assoc]
  rfl

theorem laterErrors_onlyErrors : OnlyErrors (laterErrors q context) := by
  have hmain : ∀ rule : Query → SObject → Context → List Message, (∀ o, OnlyErrors (rule q o context)) →
      OnlyErrors (match (mainObjectOf q context).1 with
        | some o => rule q o context
        | none => []) := by
    intro rule hrule
    split
    · exact hrule _
    · exact onlyErrors_nil
  have hobject := onlyErrors_append (mainObjectOf_onlyErrors q context)
    (hmain pathRule (pathRule_onlyErrors q context))
  have hlinks := onlyErrors_append (onlyErrors_append (onlyErrors_append hobject
    (hmain typeOfRule (typeOfRule_onlyErrors q context)))
    (hmain childRule (childRule_onlyErrors q context)))
    (hmain junctionRule (junctionRule_onlyErrors q context))
  exact onlyErrors_append (onlyErrors_append (onlyErrors_append (onlyErrors_append hlinks
    (aggregateRule_onlyErrors q)) (semiJoinRule_onlyErrors q context))
    (literalRule_onlyErrors q context _)) (hmain picklistRule (picklistRule_onlyErrors q context))

theorem otherMessages_limitless : Repair.limitWarnings (otherMessages q context) = [] := by
  have herrors : OnlyErrors (syntaxRules q ++ toolingRule q (mainName q context) ++ laterErrors q context) :=
    onlyErrors_append (onlyErrors_append (syntaxRules_onlyErrors q) (toolingRule_onlyErrors q _))
      (laterErrors_onlyErrors q context)
  rw [otherMessages, Repair.limitWarnings_append, Repair.limitWarnings_of_onlyErrors herrors, wildcardRule_limitless,
    List.append_nil]

/-- Where a limit may be wanted, no other message depends on the limit there is. -/
theorem otherMessages_limit (h : needsNoLimit q context = false) (n : Int) :
    otherMessages ((Action.applyLimit n).apply q) context = otherMessages q context := by
  have hnone : ∀ q' : Query, toolingRule q' (mainName q context) = [] := by
    intro q'
    unfold toolingRule
    rw [(Bool.or_eq_false_iff.mp h).1]
    rfl
  -- The objects that describe the schema are the only ones whose rule looks at the limit.
  have htooling : toolingRule ((Action.applyLimit n).apply q) (mainName q context) =
      toolingRule q (mainName q context) :=
    (hnone _).trans (hnone q).symm
  exact congrArg (syntaxRules q ++ · ++ laterErrors q context ++ wildcardRule q) htooling

/-- The rule about the number of records asks for one limit at most, and is content with it. -/
theorem limitMessages_content {v : Validator} (hlimits : v.usualLimit ≤ v.maxRows) :
    limitMessages q context v = [] ∨
      needsNoLimit q context = false ∧ ∃ text n, limitMessages q context v = [limitWarning text n] ∧
        limitMessages ((Action.applyLimit n).apply q) context v = [] := by
  have hcontent : ∀ n ≤ v.maxRows, limitMessages ((Action.applyLimit n).apply q) context v = [] := by
    intro n hn
    have hrule : ∀ main name, limitRule v ((Action.applyLimit n).apply q) main name = [] := by
      intro main name
      exact if_neg (Int.not_lt.mpr hn)
    rw [limitMessages, hrule, ite_self]
  cases hneed : needsNoLimit q context with
  | true =>
    left
    rw [limitMessages, if_pos hneed]
  | false =>
    rw [limitMessages, if_neg (by simp [hneed])]
    unfold limitRule
    dsimp only
    split
    · split
      · exact .inr ⟨rfl, _, _, rfl, hcontent _ (Int.le_refl _)⟩
      · exact .inl rfl
    · split
      · exact .inl rfl
      · exact .inr ⟨rfl, _, _, rfl, hcontent _ hlimits⟩

theorem validate_contented {v : Validator} (hlimits : v.usualLimit ≤ v.maxRows) :
    Repair.Contented fun q => v.validate q context := by
  intro q
  dsimp only
  rcases limitMessages_content q context hlimits with hnone | ⟨hneed, text, n, hasked, hagain⟩
  · left
    rw [validate_eq, hnone, List.append_nil, otherMessages_limitless]
  · right
    refine ⟨otherMessages q context, limitWarning text n, n, ?_, otherMessages_limitless q context, ?_, rfl, ?_⟩
    · rw [validate_eq, hasked]
    · rw [validate_eq, Repair.limitWarnings_append, otherMessages_limitless, hasked]
      rfl
    · rw [validate_eq, hagain, otherMessages_limit q context hneed, List.append_nil]

/-- A query that was corrected well is not corrected again: it stays valid and as it is, and its
messages are those it had, without the warning that the added limit answered. -/
theorem corrected_again {v : Validator} (hlimits : v.usualLimit ≤ v.maxRows) {bounds : Repair.Bounds}
    {q : Query} {used : Int} {o : Repair.Outcome} (h : corrected context v bounds q used = .ok o)
    (hvalid : o.status = .valid) :
    ∃ kept answered, o.diagnostics = kept ++ answered ∧ Repair.limitWarnings kept = [] ∧
      Repair.Answered o answered ∧
      ∀ bounds' used', corrected context v bounds' o.query used' = .ok (Repair.unchanged o.query kept used') := by
  obtain ⟨kept, answered, hsplit, hkept, hanswered, hagain⟩ :=
    Repair.run_again (fun q => v.validate q context) (validate_contented context hlimits) h hvalid
  exact ⟨kept, answered, hsplit, hkept, hanswered, fun bounds' used' => hagain bounds' used' ()⟩

/-- A path is corrected and a limit is added, once. -/
theorem corrected_again_limited : ∃ q o, parse "SELECT Ids FROM C" = .ok q ∧
    ({} : Validator).usualLimit ≤ ({} : Validator).maxRows ∧
    corrected parentAndChild {} {} q 0 = .ok o ∧ o.status = .valid ∧ o.corrections.length = 2 ∧
    ∃ kept answered, o.diagnostics = kept ++ answered ∧ Repair.limitWarnings kept = [] ∧
      Repair.Answered o answered ∧
      ∀ bounds' used', corrected parentAndChild {} bounds' o.query used' =
        .ok (Repair.unchanged o.query kept used') := by
  obtain ⟨q, hq, hcorrected⟩ := exists_ok_of_any (r := parse "SELECT Ids FROM C")
    (p := fun q => (corrected parentAndChild {} {} q 0).toOption.any fun o =>
      o.status == .valid && o.corrections.length == 2) (by decide +kernel)
  obtain ⟨o, ho, hboth⟩ := exists_ok_of_any hcorrected
  rw [Bool.and_eq_true, beq_iff_eq, beq_iff_eq] at hboth
  exact ⟨q, o, hq, by decide, ho, hboth.1, hboth.2, corrected_again parentAndChild (by decide) ho hboth.1⟩

end Validator

end Soql
