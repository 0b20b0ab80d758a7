import Soql.Proofs.Query.Reading
import Soql.Proofs.Repair.Checked
import Soql.Proofs.Validation.Messages
import Soql.Validation.Rules

namespace Soql

open Text Query

def SelectItem.hasAs {κ : Type} : SelectItem κ → Bool
  | .field _ a => a.any (·.withAs)
  | .call _ _ a => a.any (·.withAs)
  | .child _ => false
  | .typeOf _ _ _ => false

def colonName : List Char → Bool
  | ':' :: d :: rest => isIdentFirst d || colonName (d :: rest)
  | _ :: rest => colonName rest
  | [] => false

def holdsBind (s : String) : Bool :=
  colonName (withoutLiterals s.toList)

def Comparison.listsBind (c : Comparison) : Bool :=
  beginsWith c.value "(" && holdsBind c.value

namespace QueryOf

variable {κ : Type} (q : QueryOf κ)

/-- The texts of a query, apart from the values of comparisons, that are more than a path. -/
def expressions : List String :=
  (q.items.flatMap fun
    | .call _ args _ => args
    | _ => []) ++ q.leaves.map (·.field) ++ q.groupBy ++ q.having.toList ++ q.orderBy.map (·.field)

def holdsBind : Bool :=
  q.comparisons.any (fun c => c.isBind || c.listsBind) || q.expressions.any Soql.holdsBind

end QueryOf

def Query.inner (q : Query) : List InnerQuery :=
  q.children ++ q.semiJoins.map (·.query)

namespace Validator

variable (context : Context)

/-- The literals of a comparison that pass for record ids, and are neither found values nor values of
the field. -/
def guessedIds (owner : Option SObject) (c : Comparison) : List String :=
  c.literals.filter fun literal =>
    resemblesId literal && !context.foundValues.contains (lower literal) &&
      !(allowedValues owner c.field context).contains (lower literal)

def childObject (q : Query) (inner : InnerQuery) : Option SObject :=
  ((mainObjectOf q context).1.bind (·.child? inner.object)).bind fun link => context.get? link.object

def ChildIds (q : Query) : Prop :=
  ∀ inner ∈ q.children, ∀ c ∈ inner.comparisons, guessedIds context (childObject context q inner) c = []

/-- What a query must be when it is handed on, on every level. -/
structure Contract (q : Query) : Prop where
  names : ∀ item ∈ q.items, item.hasAs = false
  innerNames : ∀ inner ∈ q.inner, ∀ item ∈ inner.items, item.hasAs = false
  binds : q.holdsBind = false
  innerBinds : ∀ inner ∈ q.inner, inner.holdsBind = false
  ids : ∀ c ∈ q.comparisons, guessedIds context (mainObjectOf q context).1 c = []
  joinIds : ∀ j ∈ q.semiJoins, ∀ c ∈ j.query.comparisons,
    guessedIds context (context.get? j.query.object) c = []
  childIds : ChildIds context q

/-- What no rule looks at: names and variables in the queries inside, variables in lists and outside
the values of comparisons, and record ids in the queries for child records. -/
structure Unseen (q : Query) : Prop where
  innerNames : ∀ inner ∈ q.inner, ∀ item ∈ inner.items, item.hasAs = false
  lists : ∀ c ∈ q.comparisons, c.listsBind = false
  expressions : ∀ s ∈ q.expressions, Soql.holdsBind s = false
  innerBinds : ∀ inner ∈ q.inner, inner.holdsBind = false
  childIds : ChildIds context q

theorem aliasRule_clean {q : Query} (h : Message.errors (aliasRule q) = []) :
    ∀ item ∈ q.items, item.hasAs = false := by
  intro item hitem
  unfold aliasRule at h
  split at h
  · cases h
  · rename_i hnone
    have hfine : isMisnamed item = false := by
      rw [← Bool.not_eq_true]
      intro hbad
      exact hnone (List.any_eq_true.mpr ⟨item, hitem, hbad⟩)
    cases item with
    | field path a =>
      have ha : a = none := by simpa [isMisnamed] using hfine
      simp [SelectItem.hasAs, ha]
    | call name args a => exact hfine
    | child inner => rfl
    | typeOf relationship branches otherwise => rfl

theorem bindRule_clean {q : Query} (h : Message.errors (bindRule q) = []) :
    ∀ c ∈ q.comparisons, c.isBind = false := by
  unfold bindRule at h
  rw [Message.errors_map_nil (fun _ => rfl), List.filter_eq_nil_iff] at h
  intro c hc
  simpa using h c hc

theorem literalRule_clean {q : Query} {main : Option SObject}
    (h : Message.errors (literalRule q main context) = []) :
    ∀ pair ∈ scopedComparisons q main context, guessedIds context pair.1 pair.2 = [] := by
  unfold literalRule at h
  rw [Message.errors_flatMap_nil] at h
  intro pair hpair
  exact (Message.errors_map_nil (fun _ => rfl)).mp (h pair hpair)

/-- A query without errors keeps the rules about names, variables and literals. -/
theorem rules_clean {v : Validator} {q : Query} (h : Message.errors (v.validate q context) = []) :
    Message.errors (aliasRule q) = [] ∧ Message.errors (bindRule q) = [] ∧
      Message.errors (literalRule q (mainObjectOf q context).1 context) = [] := by
  simp only [validate, syntaxRules, Message.errors_append, List.append_eq_nil_iff] at h
  obtain ⟨⟨⟨⟨⟨⟨⟨⟨⟨⟨⟨⟨⟨⟨halias, hbind⟩, -⟩, -⟩, -⟩, -⟩, -⟩, -⟩, -⟩, -⟩, -⟩, -⟩, hliteral⟩, -⟩, -⟩ := h
  exact ⟨halias, hbind, hliteral⟩

theorem contract_iff {v : Validator} {q : Query}
    (h : Message.errors (v.validate q context) = []) : Contract context q ↔ Unseen context q := by
  obtain ⟨halias, hbind, hliteral⟩ := rules_clean context h
  have hnames := aliasRule_clean halias
  have hbinds := bindRule_clean hbind
  have hids := literalRule_clean context hliteral
  constructor
  · intro hq
    have hnone := hq.binds
    simp only [QueryOf.holdsBind, Bool.or_eq_false_iff, List.any_eq_false] at hnone
    refine ⟨hq.innerNames, ?_, ?_, hq.innerBinds, hq.childIds⟩
    · intro c hc
      have hfree := hnone.1 c hc
      simp only [Bool.or_eq_true, not_or, Bool.not_eq_true] at hfree
      exact hfree.2
    · intro s hs
      simpa using hnone.2 s hs
  · intro hq
    refine ⟨hnames, hq.innerNames, ?_, hq.innerBinds, ?_, ?_, hq.childIds⟩
    · simp only [QueryOf.holdsBind, Bool.or_eq_false_iff, List.any_eq_false]
      constructor
      · intro c hc
        simp [hbinds c hc, hq.lists c hc]
      · intro s hs
        simp [hq.expressions s hs]
    · intro c hc
      exact hids (_, c) (List.mem_append_left _ (List.mem_map.mpr ⟨c, hc, rfl⟩))
    · intro j hj c hc
      apply hids (_, c)
      exact List.mem_append_right _ (List.mem_flatMap.mpr ⟨j, hj, List.mem_map.mpr ⟨c, hc, rfl⟩⟩)

def corrected (v : Validator) (bounds : Repair.Bounds) (q : Query) (used : Int) : Except Failure Repair.Outcome :=
  (Repair.run (fun q => (pure (v.validate q context) : StateM Unit (List Message))) bounds q used
    ()).1

/-- A valid outcome is all that it must be exactly where it is so in the places that no rule looks
at. -/
theorem corrected_contract_iff {v : Validator} {bounds : Repair.Bounds} {q : Query} {used : Int}
    {o : Repair.Outcome} (h : corrected context v bounds q used = .ok o) (hvalid : o.status = .valid) :
    Contract context o.query ↔ Unseen context o.query :=
  contract_iff context ((Repair.run_checked (fun q => v.validate q context) h).clean hvalid)

def parentAndChild : Context :=
  .ofObjects [
    { name := "A", fields := [{ name := "Id" }, { name := "N" }], children := [⟨"Cs", "C", ""⟩],
      recordCount := some 5 },
    { name := "C", fields := [{ name := "Id" }] }] none [] none

theorem corrected_contract_iff_list : ∃ q o, parse "SELECT Id FROM A WHERE N IN ('a')" = .ok q ∧
    corrected parentAndChild {} {} q 0 = .ok o ∧ o.status = .valid ∧
    (Contract parentAndChild o.query ↔ Unseen parentAndChild o.query) := by
  obtain ⟨q, hq, hcorrected⟩ := exists_ok_of_any (r := parse "SELECT Id FROM A WHERE N IN ('a')")
    (p := fun q => (corrected parentAndChild {} {} q 0).toOption.any (·.status == .valid)) (by decide +kernel)
  obtain ⟨o, ho, hvalid⟩ := exists_ok_of_any hcorrected
  rw [beq_iff_eq] at hvalid
  exact ⟨q, o, hq, ho, hvalid, corrected_contract_iff parentAndChild ho hvalid⟩

/-- A name with the keyword, a guessed record id and a variable, none of them seen. -/
theorem corrected_not_contract : ∃ q o, parse
      "SELECT Id, (SELECT Id AS x FROM Cs WHERE Id = '003000000000001') FROM A WHERE N IN (:n)" =
        .ok q ∧
    corrected parentAndChild {} {} q 0 = .ok o ∧ o.status = .valid ∧ ¬Contract parentAndChild o.query := by
  obtain ⟨q, hq, hcorrected⟩ := exists_ok_of_any (r := parse
      "SELECT Id, (SELECT Id AS x FROM Cs WHERE Id = '003000000000001') FROM A WHERE N IN (:n)")
    (p := fun q => (corrected parentAndChild {} {} q 0).toOption.any fun o =>
      o.status == .valid && o.query.holdsBind) (by decide +kernel)
  obtain ⟨o, ho, hboth⟩ := exists_ok_of_any hcorrected
  rw [Bool.and_eq_true, beq_iff_eq] at hboth
  refine ⟨q, o, hq, ho, hboth.1, ?_⟩
  intro hcontract
  rw [hcontract.binds] at hboth
  cases hboth.2

end Validator

end Soql
