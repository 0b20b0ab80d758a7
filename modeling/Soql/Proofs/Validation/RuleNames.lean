import Soql.Proofs.Validation.Limits
import Soql.Proofs.Validation.PathErrors

namespace Soql.Validator

/-- The messages carry none but some names. -/
def NamedAmong (names : List String) (messages : List Message) : Prop :=
  ∀ m ∈ messages, m.rule ∈ names

section Closure

variable {α : Type} {names : List String}

theorem namedAmong_nil : NamedAmong names [] :=
  fun m hm => by cases hm

theorem namedAmong_singleton {m : Message} (h : m.rule ∈ names) : NamedAmong names [m] :=
  List.forall_mem_singleton.mpr h

theorem namedAmong_append {first second : List Message} (h : NamedAmong names first)
    (h' : NamedAmong names second) : NamedAmong names (first ++ second) :=
  List.forall_mem_append.mpr ⟨h, h'⟩

theorem namedAmong_map {items : List α} {f : α → Message} (h : ∀ a, (f a).rule ∈ names) :
    NamedAmong names (items.map f) := by
  intro m hm
  obtain ⟨a, -, rfl⟩ := List.mem_map.mp hm
  exact h a

theorem namedAmong_filterMap {items : List α} {f : α → Option Message} (h : ∀ a, ∀ m ∈ f a, m.rule ∈ names) :
    NamedAmong names (items.filterMap f) := by
  intro m hm
  obtain ⟨a, -, ha⟩ := List.mem_filterMap.mp hm
  exact h a m ha

theorem namedAmong_flatMap {items : List α} {f : α → List Message} (h : ∀ a, NamedAmong names (f a)) :
    NamedAmong names (items.flatMap f) := by
  intro m hm
  obtain ⟨a, -, hm⟩ := List.mem_flatMap.mp hm
  exact h a m hm

end Closure

variable (q : Query) (context : Context) (main : SObject)

theorem syntaxRules_named : NamedAmong ["syntax"] (syntaxRules q) := by
  refine namedAmong_append (namedAmong_append (namedAmong_append ?_ ?_) ?_) ?_
  · unfold aliasRule
    split
    · exact namedAmong_singleton (by simp [Message.error])
    · exact namedAmong_nil
  · exact namedAmong_map fun _ => by simp [Message.error]
  · unfold havingRule
    split
    · exact namedAmong_singleton (by simp [Message.error])
    · exact namedAmong_nil
  · apply namedAmong_filterMap
    intro c m hm
    grind [likeIdError, Message.error]

theorem toolingRule_named (name : String) : NamedAmong ["tooling"] (toolingRule q name) := by
  unfold toolingRule
  split
  · exact namedAmong_map fun _ => by simp [Message.error]
  · exact namedAmong_nil

theorem pathRule_named : NamedAmong ["relationships", "fields"] (pathRule q main context) := by
  apply namedAmong_filterMap
  intro r m hm
  split at hm
  · cases hm
  · split at hm
    · cases hm
    · obtain rfl := Option.some.inj hm
      unfold pathError
      split <;> simp [Message.error]

theorem typeOfRule_named : NamedAmong ["relationships", "fields"] (typeOfRule q main context) := by
  apply namedAmong_flatMap
  rintro ⟨relationship, branches⟩
  dsimp only
  split
  · exact namedAmong_singleton (by simp [Message.error])
  · apply namedAmong_flatMap
    intro branch
    unfold branchErrors
    split
    · exact namedAmong_singleton (by simp [Message.error])
    · split
      · exact namedAmong_nil
      · exact namedAmong_map fun _ => by simp [Message.error]

theorem childErrors_named (link : Option ChildLink) (inner : InnerQuery) :
    NamedAmong ["subqueries"] (childErrors context link inner) := by
  unfold childErrors
  split
  · apply namedAmong_filterMap
    intro r m hm
    split at hm
    · cases hm
    · obtain rfl := Option.some.inj hm
      simp [Message.error]
  · exact namedAmong_nil

theorem childRule_named : NamedAmong ["subqueries"] (childRule q main context) := by
  apply namedAmong_flatMap
  intro inner
  dsimp only
  split
  · exact childErrors_named context _ inner
  · split
    · rw [← List.singleton_append]
      exact namedAmong_append (namedAmong_singleton (by simp [Message.error])) (childErrors_named context _ inner)
    · exact namedAmong_singleton (by simp [Message.error])

theorem aggregateRule_named : NamedAmong ["aggregates"] (aggregateRule q) := by
  unfold aggregateRule
  split
  · apply namedAmong_append
    · split
      · exact namedAmong_nil
      · exact namedAmong_singleton (by simp [Message.error])
    · apply namedAmong_filterMap
      intro item m hm
      cases item <;> grind [groupingError, ungrouped, Message.error]
  · exact namedAmong_nil

theorem semiJoinRule_named : NamedAmong ["semi_joins"] (semiJoinRule q context) := by
  apply namedAmong_flatMap
  intro join
  dsimp only
  split
  · apply namedAmong_append
    · split
      · exact namedAmong_nil
      · exact namedAmong_singleton (by simp [Message.error])
    · apply namedAmong_filterMap
      intro r m hm
      split at hm
      · cases hm
      · obtain rfl := Option.some.inj hm
        simp [Message.error]
  · split
    · exact namedAmong_nil
    · exact namedAmong_singleton (by simp [Message.error])

theorem literalRule_named (owner : Option SObject) : NamedAmong ["literals"] (literalRule q owner context) :=
  namedAmong_flatMap fun _ => namedAmong_map fun _ => by simp [Message.error]

theorem picklistRule_named : NamedAmong ["picklists"] (picklistRule q main context) := by
  apply namedAmong_flatMap
  intro c
  unfold picklistErrors
  split
  · split
    · split
      · apply namedAmong_map
        intro literal
        unfold valueError
        dsimp only
        split <;> simp [Message.error]
      · exact namedAmong_nil
    · exact namedAmong_nil
  · exact namedAmong_nil

theorem governorRule_warns (v : Validator) (owner : Option SObject) (name : String) :
    Message.errors (governorRule v q owner name) = [] := by
  rw [Message.errors, List.filter_eq_nil_iff]
  intro m hm
  rw [governorRule, List.mem_append] at hm
  rcases hm with hm | hm
  · obtain ⟨c, -, rfl⟩ := List.mem_map.mp hm
    exact Bool.false_ne_true
  · grind [limitRule, limitWarning, Message.isError]

structure KeepsOthers : Prop where
  syntaxes : syntaxRules q = []
  tooling : toolingRule q main.name = []
  paths : pathRule q main context = []
  types : typeOfRule q main context = []
  children : childRule q main context = []
  aggregates : aggregateRule q = []
  semiJoins : semiJoinRule q context = []
  literals : literalRule q (some main) context = []
  picklists : picklistRule q main context = []

variable {q context main}

/-- A query that keeps the other rules has no errors but those of the rule for joining objects. -/
theorem KeepsOthers.errors_eq (h : KeepsOthers q context main) (v : Validator)
    (hmain : context.get? q.object = some main) :
    Message.errors (v.validate q context) = junctionRule q main context := by
  have hall : Message.errors (junctionRule q main context) = junctionRule q main context :=
    List.filter_eq_self.mpr (junctionRule_onlyErrors q context main)
  rw [validate_of_main v hmain, h.syntaxes, h.tooling, h.paths, h.types, h.children, h.aggregates, h.semiJoins,
    h.literals, h.picklists]
  simp only [Message.errors_append, hall, governorRule_warns]
  simp [Message.errors]

/-- Where all errors are about joining objects, every other rule is kept. -/
theorem keepsOthers_of_named {v : Validator} (hmain : context.get? q.object = some main)
    (h : NamedAmong ["junctions"] (Message.errors (v.validate q context))) : KeepsOthers q context main := by
  -- A rule whose errors have other names has none.
  have hnone {names : List String} {messages : List Message} (hnamed : NamedAmong names messages)
      (hnames : "junctions" ∉ names) (herrors : Message.OnlyErrors messages)
      (hmem : ∀ m ∈ messages, m ∈ v.validate q context) : messages = [] := by
    rw [List.eq_nil_iff_forall_not_mem]
    intro m hm
    have hrule := h m (List.mem_filter.mpr ⟨hmem m hm, herrors m hm⟩)
    rw [List.mem_singleton] at hrule
    exact hnames (hrule ▸ hnamed m hm)
  have hvalidate := validate_of_main v hmain
  constructor
  · exact hnone (syntaxRules_named q) (by decide) (syntaxRules_onlyErrors q) (by simp_all)
  · exact hnone (toolingRule_named q _) (by decide) (toolingRule_onlyErrors q _) (by simp_all)
  · exact hnone (pathRule_named q context main) (by decide) (pathRule_onlyErrors q context main) (by simp_all)
  · exact hnone (typeOfRule_named q context main) (by decide) (typeOfRule_onlyErrors q context main) (by simp_all)
  · exact hnone (childRule_named q context main) (by decide) (childRule_onlyErrors q context main) (by simp_all)
  · exact hnone (aggregateRule_named q) (by decide) (aggregateRule_onlyErrors q) (by simp_all)
  · exact hnone (semiJoinRule_named q context) (by decide) (semiJoinRule_onlyErrors q context) (by simp_all)
  · exact hnone (literalRule_named q context _) (by decide) (literalRule_onlyErrors q context _) (by simp_all)
  · exact hnone (picklistRule_named q context main) (by decide) (picklistRule_onlyErrors q context main)
      (by simp_all)

end Soql.Validator
