import Soql.Proofs.Query.ClauseTexts
import Soql.Proofs.Validation.Contract
import Soql.Proofs.Validation.PathErrors

namespace Soql.Validator

open Text Query PathWalk

variable {q : Query} {main : SObject} {context : Context}

theorem exists_pathFinding {r : Reference} (hthrough : throughJunction main r.path = none)
    (hlost : ¬Resolves context main r.path) : ∃ e, pathFinding main context r = some e := by
  rw [← walk_isReached] at hlost
  cases hwalk : walk context main r.path with
  | reached => simp [hwalk, Outcome.isReached] at hlost
  | lost message corrected =>
    exact ⟨(r, pathError r.path message corrected), by simp [pathFinding, hthrough, hwalk]⟩

/-- The rules see a reference that leads nowhere: it goes through a joining object, or it gets an error
of its own. The error may be about the same path in another letter case. -/
theorem error_of_reference (validator : Validator) (hmain : context.get? q.object = some main)
    (hfree : ∀ r ∈ q.references, SigmaFree r.path) {r : Reference} (hr : r ∈ q.references)
    (hname : lower r.path ∉ callAliases q) (hlost : ¬Resolves context main r.path) :
    Message.errors (validator.validate q context) ≠ [] := by
  -- Of paths that differ in letter case only the first is checked, and it leads nowhere either.
  obtain ⟨f, hf, hpath⟩ := exists_checkedReference hr hname
  have hcase : (segments f.path).map lower = (segments r.path).map lower :=
    lower_segments_congr (hfree f (mem_references_of_checked hf)) (hfree r hr) hpath
  have hlost' : ¬Resolves context main f.path := fun h => hlost (h.congr hcase)
  rw [validate_of_main validator hmain, ← pathFindings_messages, ← junctionFindings_messages]
  cases hthrough : throughJunction main f.path with
  | none =>
    obtain ⟨e, he⟩ : ∃ e, pathFinding main context f = some e := exists_pathFinding hthrough hlost'
    have hmem : e ∈ pathFindings q main context := List.mem_filterMap.mpr ⟨f, hf, he⟩
    apply Message.errors_ne_nil (isError_of_pathFinding he)
    simp only [List.mem_append]
    exact .inl (.inl (.inl (.inr (List.mem_map_of_mem hmem))))
  | some junction =>
    have hjunction : f ∈ junctionReferences q main :=
      firstReference_filter (firstReference_of_checked hf) (by simp [hthrough])
    have hmem : (f, junctionError q main context f junction) ∈ junctionFindings q main context :=
      List.mem_filterMap.mpr ⟨f, hjunction, by simp [junctionFinding, hthrough]⟩
    refine Message.errors_ne_nil (m := junctionError q main context f junction) rfl ?_
    simp only [List.mem_append]
    exact .inl (.inr (List.mem_map_of_mem hmem))

/-- A condition on groups needs groups. -/
theorem error_of_having (validator : Validator) {having : String} (hhaving : having ∈ q.having)
    (hsome : having.isEmpty = false) (hgroups : q.groupBy = []) :
    Message.errors (validator.validate q context) ≠ [] := by
  have hrule : havingRule q = [.error "syntax" "HAVING requires a GROUP BY clause" none] := by
    rw [havingRule, if_pos]
    rw [Option.mem_def.mp hhaving, hgroups]
    simpa using hsome
  apply Message.errors_ne_nil (m := .error "syntax" "HAVING requires a GROUP BY clause" none) rfl
  simp only [validate, syntaxRules, List.mem_append, hrule]
  simp

/-- With groups, the rules do not look at the condition on groups. -/
theorem validate_having (validator : Validator) (hgroups : q.groupBy ≠ []) (having : Option String) :
    validator.validate { q with having } context = validator.validate q context := by
  have hrule (q : Query) (h : q.groupBy ≠ []) : havingRule q = [] := by
    rw [havingRule, if_neg]
    simp [h]
  have hrules : syntaxRules { q with having } = syntaxRules q := by
    rw [syntaxRules, syntaxRules, hrule q hgroups, hrule { q with having } hgroups]
    rfl
  unfold validate
  rw [hrules]
  rfl

/-- A query that was read and names, in a clause that the rules search, a path that leads nowhere has an
error. A query with a condition on groups but without groups has one whatever it names; with groups, what
the condition on groups names makes no difference. -/
theorem named_reported (validator : Validator) {text : String} (hq : parse text = .ok q)
    (hmain : context.get? q.object = some main) :
    (∀ clause, ∀ expr ∈ q.texts clause, ∀ path, Names expr path → lower path ∉ callAliases q →
      ¬Resolves context main path → Message.errors (validator.validate q context) ≠ []) ∧
    ∀ having ∈ q.having,
      (q.groupBy = [] → Message.errors (validator.validate q context) ≠ []) ∧
      (q.groupBy ≠ [] → ∀ other,
        validator.validate { q with having := other } context = validator.validate q context) := by
  have hlaid : ClausesLaid q := parse_laid hq
  constructor
  · intro clause expr hexpr path hnames hname hlost
    have hr : ⟨clause, path⟩ ∈ q.references := hlaid.mem_references hexpr hnames
    exact error_of_reference validator hmain (fun r hr => hlaid.sigmaFree hr) hr hname hlost
  · intro having hhaving
    obtain ⟨-, hsome⟩ := hlaid.having having hhaving
    exact ⟨error_of_having validator hhaving hsome, validate_having validator⟩

/-- A field that is not there inside a call in the filter, and another one in the condition on groups. -/
def astray : String :=
  "SELECT COUNT(Id) n, Industry FROM Account WHERE CALENDAR_YEAR(Shoe) = 2020 GROUP BY Industry HAVING MAX(Hat) > 3"

theorem named_reported_astray : ∃ q, parse astray = .ok q ∧ owned.get? q.object = some Sample.account ∧
    Names "CALENDAR_YEAR(Shoe)" "Shoe" ∧ Message.errors (validate {} q owned) ≠ [] ∧
    q.having = some "MAX(Hat) > 3" ∧ validate {} { q with having := none } owned = validate {} q owned := by
  obtain ⟨q, hq, hfine⟩ := exists_ok_of_any (r := parse astray)
    (p := fun q => owned.get? q.object == some Sample.account &&
      (q.texts .filter == ["CALENDAR_YEAR(Shoe)"] && callAliases q == ["n"]) &&
      (q.having == some "MAX(Hat) > 3" && !q.groupBy.isEmpty)) (by decide +kernel)
  simp only [Bool.and_eq_true, beq_iff_eq, Bool.not_eq_true', List.isEmpty_eq_false_iff] at hfine
  obtain ⟨⟨hmain, hfilter, haliases⟩, hhaving, hgroups⟩ := hfine
  have hnames : Names "CALENDAR_YEAR(Shoe)" "Shoe" :=
    ⟨by decide, by decide, [Token.word "CALENDAR_YEAR", Token.opening], [Token.closing],
      by decide +kernel, by decide⟩
  obtain ⟨hsearched, hkept⟩ := named_reported {} hq hmain
  refine ⟨q, hq, hmain, hnames, ?_, hhaving, (hkept _ hhaving).2 hgroups none⟩
  apply hsearched .filter "CALENDAR_YEAR(Shoe)" (by rw [hfilter]; decide) "Shoe" hnames
  · rw [haliases]
    decide
  · decide +kernel

/-- A condition on groups that names a field which is not there passes all rules. -/
theorem having_unreported : ∃ q, parse
      "SELECT COUNT(Id), Industry FROM Account GROUP BY Industry HAVING Bogus__c > 3 LIMIT 5" = .ok q ∧
    owned.get? q.object = some Sample.account ∧
    (∃ having ∈ q.having, Names having "Bogus__c") ∧ lower "Bogus__c" ∉ callAliases q ∧
    ¬Resolves owned Sample.account "Bogus__c" ∧ Message.errors (validate {} q owned) = [] := by
  obtain ⟨q, hq, hfine⟩ := exists_ok_of_any (r := parse
      "SELECT COUNT(Id), Industry FROM Account GROUP BY Industry HAVING Bogus__c > 3 LIMIT 5")
    (p := fun q => owned.get? q.object == some Sample.account && q.having == some "Bogus__c > 3" &&
      (callAliases q == [] && Message.errors (validate {} q owned) == [])) (by decide +kernel)
  simp only [Bool.and_eq_true, beq_iff_eq] at hfine
  obtain ⟨⟨hmain, hhaving⟩, haliases, hclean⟩ := hfine
  have hnames : Names "Bogus__c > 3" "Bogus__c" :=
    ⟨by decide +kernel, by decide +kernel, [], [⟨.operator, ">"⟩, ⟨.number, "3"⟩], by decide +kernel, by decide⟩
  refine ⟨q, hq, hmain, ⟨_, hhaving, hnames⟩, ?_, by decide +kernel, hclean⟩
  rw [haliases]
  exact List.not_mem_nil

end Soql.Validator
