import Soql.Proofs.Query.Signature
import Soql.Proofs.Repair.Fits
import Soql.Validation.Rules

namespace Soql

open Text

namespace Action

/-- A query gets further groups, each of them new in any letter case. -/
structure AddsGroups (q : Query) (added : List String) (q' : Query) : Prop where
  query : q' = { q with groupBy := q.groupBy ++ added }
  fresh : ∀ e ∈ added, lower e ∉ q.groupBy.map lower
  once : (added.map lower).Nodup

theorem AddsGroups.refl (q : Query) : AddsGroups q [] q where
  query := by rw [List.append_nil]
  fresh := by simp
  once := List.nodup_nil

theorem AddsGroups.trans {q q' q'' : Query} {added added' : List String} (h : AddsGroups q added q')
    (h' : AddsGroups q' added' q'') : AddsGroups q (added ++ added') q'' := by
  obtain ⟨rfl, hfresh, honce⟩ := h
  obtain ⟨rfl, hfresh', honce'⟩ := h'
  have hapart : ∀ e ∈ added', lower e ∉ q.groupBy.map lower ∧ lower e ∉ added.map lower := by
    intro e he
    have hnew := hfresh' e he
    rw [List.map_append, List.mem_append, not_or] at hnew
    exact hnew
  refine ⟨by rw [List.append_assoc], ?_, ?_⟩
  · exact List.forall_mem_append.mpr ⟨hfresh, fun e he => (hapart e he).1⟩
  · rw [List.map_append, List.nodup_append]
    refine ⟨honce, honce', ?_⟩
    rintro a ha b hb rfl
    obtain ⟨e, he, rfl⟩ := List.mem_map.mp hb
    exact (hapart e he).2 ha

/-- One correction adds its expression, unless it is there in some letter case. -/
theorem apply_addGroupBy (q : Query) (group : String) : ∃ added, AddsGroups q added (apply q (.addGroupBy [group])) ∧
    (∀ e ∈ added, e = group) ∧ lower group ∈ (q.groupBy ++ added).map lower := by
  by_cases h : lower group ∈ q.groupBy.map lower
  · refine ⟨[], ?_, by simp, by simpa using h⟩
    have hsame : apply q (.addGroupBy [group]) = q := by
      simp only [apply, QueryOf.groupAlso]
      rw [List.filter_cons_of_neg (by simpa using h), List.filter_nil, List.append_nil]
    rw [hsame]
    exact AddsGroups.refl q
  · refine ⟨[group], ⟨?_, by simpa using h, by simp⟩, by simp, by simp⟩
    simp only [apply, QueryOf.groupAlso]
    rw [List.filter_cons_of_pos (by simpa using h), List.filter_nil]

/-- Corrections one after another add no expression but their own, and then each of them is there in some letter
case. -/
theorem foldl_addGroupBy {actions : List Action} (h : ∀ a ∈ actions, ∃ group, a = .addGroupBy [group]) (q : Query) :
    ∃ added, AddsGroups q added (actions.foldl apply q) ∧ (∀ e ∈ added, .addGroupBy [e] ∈ actions) ∧
      ∀ group, .addGroupBy [group] ∈ actions → lower group ∈ (q.groupBy ++ added).map lower := by
  induction actions generalizing q with
  | nil => exact ⟨[], AddsGroups.refl q, by simp, by simp⟩
  | cons a actions ih =>
    obtain ⟨⟨group, rfl⟩, hrest⟩ := List.forall_mem_cons.mp h
    obtain ⟨first, hfirst, hown, hthere⟩ := apply_addGroupBy q group
    obtain ⟨others, hothers, hmem, hall⟩ := ih hrest (apply q (.addGroupBy [group]))
    rw [hfirst.query] at hall
    refine ⟨first ++ others, hfirst.trans hothers, ?_, ?_⟩
    · rw [List.forall_mem_append]
      refine ⟨fun e he => ?_, fun e he => List.mem_cons_of_mem _ (hmem e he)⟩
      rw [hown e he]
      exact List.mem_cons_self
    · intro wanted hwanted
      rw [← List.append_assoc]
      rcases List.mem_cons.mp hwanted with heq | hwanted
      · cases heq
        rw [List.map_append]
        exact List.mem_append_left _ hthere
      · exact hall wanted hwanted

end Action

namespace Validator

open Query Token

variable {κ : Type}

/-- No literal stands in the arguments of a selected call. -/
def Unquoted : SelectItem κ → Prop
  | .call _ args _ => ∀ arg ∈ args, '\x27' ∉ arg.toList
  | .field _ _ => True
  | .child _ => True
  | .typeOf _ _ _ => True

def IsBare (expr : String) : Prop :=
  IsLaid expr ∧ '\x27' ∉ expr.toList

theorem isBare_word {w : String} (h : (word w).Whole) : IsBare w :=
  ⟨⟨_, laid_word h⟩, fun hmem => (h.unquoted nofun _ hmem).1 rfl⟩

theorem isBare_callText {name : String} (hname : (word name).Whole) {args : List String} (hargs : IsArguments args)
    (hfree : ∀ arg ∈ args, '\x27' ∉ arg.toList) : IsBare (callText name args) := by
  have hinside : '\x27' ∉ (joined ", " args).toList := not_mem_joined (by decide) hfree
  refine ⟨laid_callText hname hargs, ?_⟩
  simp only [callText, String.toList_append, List.mem_append, not_or]
  exact ⟨⟨⟨(isBare_word hname).2, by decide⟩, hinside⟩, by decide⟩

/-- The expression by which a call is grouped has the signature of the call. -/
theorem groupOfCall_spec {name : String} {args : List String} (hname : (word name).Whole) (hargs : IsArguments args)
    (hfree : ∀ arg ∈ args, '\x27' ∉ arg.toList) :
    IsBare (groupOfCall name args) ∧ signature (groupOfCall name args) = signature (callText name args) := by
  unfold groupOfCall
  split
  · rename_i first others hbare
    have hfirst := hfree first List.mem_cons_self
    refine ⟨⟨IsLaid.of_arguments hargs first List.mem_cons_self, hfirst⟩, signature_first hname hargs hfirst ?_⟩
    intro hmem
    rw [List.contains_iff_mem.mpr hmem] at hbare
    cases hbare
  · exact ⟨isBare_callText hname hargs hfree, rfl⟩

theorem groupingError_field {grouped : List String} {path : String} {alias? : Option Alias} :
    groupingError grouped (.field path alias? : SelectItem κ) = none ↔ signature path ∈ grouped := by
  simp [groupingError]

theorem groupingError_call {grouped : List String} {name : String} {args : List String} {alias? : Option Alias} :
    groupingError grouped (.call name args alias? : SelectItem κ) = none ↔
      isAggregateName name = true ∨ signature (callText name args) ∈ grouped := by
  cases haggregate : isAggregateName name <;> simp [groupingError, haggregate]

/-- What is grouped stays so among further groups. -/
theorem groupingError_mono {grouped grouped' : List String} (h : ∀ s ∈ grouped, s ∈ grouped') {item : SelectItem κ}
    (hnone : groupingError grouped item = none) : groupingError grouped' item = none := by
  cases item with
  | field path alias? => exact groupingError_field.mpr (h _ (groupingError_field.mp hnone))
  | call name args alias? => exact groupingError_call.mpr ((groupingError_call.mp hnone).imp_right (h _))
  | child q => rfl
  | typeOf relationship branches otherwise => rfl

/-- An error asks for one expression, and no error is left where the signature of this expression is grouped. -/
theorem groupingError_spec {item : SelectItem κ} (hlaid : ItemLaid item) (hfree : Unquoted item)
    {grouped : List String} {m : Message} (h : groupingError grouped item = some m) :
    ∃ group, m.action = some (.addGroupBy [group]) ∧ IsBare group ∧
      ∀ grouped', signature group ∈ grouped' → groupingError grouped' item = none := by
  cases item with
  | field path alias? =>
    simp only [groupingError] at h
    split at h
    · cases h
    · cases h
      exact ⟨path, rfl, isBare_word hlaid, fun grouped' hmem => groupingError_field.mpr hmem⟩
  | call name args alias? =>
    simp only [groupingError] at h
    split at h
    · cases h
    · cases h
      obtain ⟨hbare, hsame⟩ := groupOfCall_spec hlaid.1 hlaid.2 hfree
      refine ⟨groupOfCall name args, rfl, hbare, ?_⟩
      intro grouped' hmem
      rw [hsame] at hmem
      exact groupingError_call.mpr (.inr hmem)
  | child q => cases h
  | typeOf relationship branches otherwise => cases h

/-- The messages with a correction are those about what is selected. -/
theorem mem_aggregateRule_iff {q : Query} {m : Message} (hm : m.action ≠ none) : m ∈ aggregateRule q ↔
    q.hasAggregates = true ∧ ∃ item ∈ q.items, groupingError (q.groupBy.map signature) item = some m := by
  unfold aggregateRule
  split
  · rename_i haggregates
    rw [List.mem_append, List.mem_filterMap]
    constructor
    · rintro (hother | hitem)
      · split at hother
        · cases hother
        · rw [List.mem_singleton.mp hother] at hm
          exact absurd rfl hm
      · exact ⟨haggregates, hitem⟩
    · exact fun hitem => .inr hitem.2
  · rename_i hnone
    constructor
    · intro hmem
      cases hmem
    · exact fun hitem => absurd hitem.1 hnone

def withGroups (q : Query) : Query :=
  Action.applyAll q ((aggregateRule q).filterMap (·.action))

variable {q : Query} (hlaid : ClausesLaid q) (hfree : ∀ item ∈ q.items, Unquoted item)

include hlaid hfree

theorem wanted_spec {a : Action} (ha : a ∈ (aggregateRule q).filterMap (·.action)) :
    ∃ group, a = .addGroupBy [group] ∧ IsBare group := by
  obtain ⟨m, hm, haction⟩ := List.mem_filterMap.mp ha
  have hsome : m.action ≠ none := by
    rw [haction]
    nofun
  obtain ⟨-, item, hitem, herror⟩ := (mem_aggregateRule_iff hsome).mp hm
  obtain ⟨group, hgroup, hbare, -⟩ := groupingError_spec (hlaid.items item hitem) (hfree item hitem) herror
  exact ⟨group, Option.some.inj (haction.symm.trans hgroup), hbare⟩

/-- All that is selected is grouped in the end. -/
theorem withGroups_spec : ∃ added, Action.AddsGroups q added (withGroups q) ∧
    (q.hasAggregates = true → ∀ item ∈ q.items, groupingError ((q.groupBy ++ added).map signature) item = none) := by
  have hwanted : ∀ a ∈ Action.inOrder ((aggregateRule q).filterMap (·.action)), ∃ group, a = .addGroupBy [group] :=
    fun a ha => (wanted_spec hlaid hfree (Action.mem_inOrder.mp ha)).imp fun group h => h.1
  obtain ⟨added, hadds, hown, hthere⟩ := Action.foldl_addGroupBy hwanted q
  refine ⟨added, hadds, ?_⟩
  intro haggregates item hitem
  cases herror : groupingError (q.groupBy.map signature) item with
  | none =>
    refine groupingError_mono (fun s hs => ?_) herror
    rw [List.map_append]
    exact List.mem_append_left _ hs
  | some m =>
    obtain ⟨group, hgroup, ⟨hgroupLaid, hgroupFree⟩, hsilent⟩ :=
      groupingError_spec (hlaid.items item hitem) (hfree item hitem) herror
    have hsome : m.action ≠ none := by
      rw [hgroup]
      nofun
    have hreported : m ∈ aggregateRule q := (mem_aggregateRule_iff hsome).mpr ⟨haggregates, item, hitem, herror⟩
    have hasked : .addGroupBy [group] ∈ Action.inOrder ((aggregateRule q).filterMap (·.action)) :=
      Action.mem_inOrder.mpr (List.mem_filterMap.mpr ⟨m, hreported, hgroup⟩)
    obtain ⟨e, he, hlower⟩ := List.mem_map.mp (hthere group hasked)
    -- What stands there is the expression itself or one in another letter case, and was read from tokens too.
    have helaid : IsLaid e := by
      rcases List.mem_append.mp he with he | he
      · exact hlaid.groupBy e he
      · obtain ⟨_, heq, hebare⟩ := wanted_spec hlaid hfree (Action.mem_inOrder.mp (hown e he))
        cases heq
        exact hebare.1
    apply hsilent
    rw [signature_congr hgroupLaid hgroupFree helaid hlower.symm]
    exact List.mem_map_of_mem he

omit hlaid hfree

/-- A call that only changes how a value is shown is grouped along with what is in it, just where this holds no
comma. -/
theorem groupingError_wrappedIn_iff {name : String} (hname : IsTransparent name) {names : List String}
    (hnames : ∀ name ∈ names, IsTransparent name) (expr : String) :
    (∀ grouped alias?, groupingError grouped (.call name [wrappedIn names expr] alias? : SelectItem κ) = none ↔
      signature expr ∈ grouped) ↔ ',' ∉ expr.toList := by
  have hother : isAggregateName name = false := by
    have hall : ∀ w ∈ Vocabulary.transparentCalls, Vocabulary.aggregates.contains w = false := by decide
    exact hall _ hname
  rw [← signature_wrappedIn_iff hname hnames]
  simp only [groupingError_call, hother, Bool.false_eq_true, false_or]
  constructor
  · intro hall
    exact List.mem_singleton.mp ((hall [signature expr] none).mpr List.mem_cons_self)
  · intro hsame grouped alias?
    rw [hsame]

/-- After the corrections nothing that is selected is reported as ungrouped, and the groups that there were are
followed by new ones alone. What is shown in another form counts as grouped with its expression just where this
holds no comma: at a comma its signature is cut. -/
theorem withGroups_complete {text : String} {q : Query} (h : parse text = .ok q)
    (hfree : ∀ item ∈ q.items, Unquoted item) :
    (∀ display group, ungrouped display group ∉ aggregateRule (withGroups q)) ∧
      (∃ added, Action.AddsGroups q added (withGroups q)) ∧
      ∀ name names expr, IsTransparent name → (∀ name ∈ names, IsTransparent name) →
        ((∀ grouped alias?,
          groupingError grouped (.call name [wrappedIn names expr] alias? : SelectItem InnerQuery) = none ↔
            signature expr ∈ grouped) ↔ ',' ∉ expr.toList) := by
  obtain ⟨added, hadds, hall⟩ := withGroups_spec (parse_laid h) hfree
  refine ⟨?_, ⟨added, hadds⟩, fun name names expr hname hnames => groupingError_wrappedIn_iff hname hnames expr⟩
  intro display group hmem
  have hsome : (ungrouped display group).action ≠ none := nofun
  rw [mem_aggregateRule_iff hsome, hadds.query] at hmem
  obtain ⟨haggregates, item, hitem, herror⟩ := hmem
  rw [hall haggregates item hitem] at herror
  cases herror

/-- Expressions that are shown in another form, one of them grouped in another letter case. -/
def labelled : String :=
  "SELECT COUNT(Id), FORMAT(toLabel(Name)), toLabel(Rating) FROM Account GROUP BY name"

theorem withGroups_complete_labelled : ∃ q, parse labelled = .ok q ∧ (withGroups q).groupBy = ["name", "Rating"] ∧
    (∀ display group, ungrouped display group ∉ aggregateRule (withGroups q)) ∧
    (∃ added, Action.AddsGroups q added (withGroups q)) ∧
    groupingError (q.groupBy.map signature) (.call "FORMAT" ["toLabel(Name)"] none : SelectItem InnerQuery) = none := by
  obtain ⟨q, hq, hfine⟩ := exists_ok_of_any (r := parse labelled)
    (p := fun q => q.items == [.call "COUNT" ["Id"] none, .call "FORMAT" ["toLabel(Name)"] none,
        .call "toLabel" ["Rating"] none] &&
      q.groupBy == ["name"] && (withGroups q).groupBy == ["name", "Rating"]) (by decide +kernel)
  simp only [Bool.and_eq_true, beq_iff_eq] at hfine
  obtain ⟨⟨hitems, hgroups⟩, hadded⟩ := hfine
  have hfree : ∀ item ∈ q.items, Unquoted item := by
    rw [hitems]
    simp [Unquoted]
  obtain ⟨hsilent, hadds, hshown⟩ := withGroups_complete hq hfree
  refine ⟨q, hq, hadded, hsilent, hadds, ?_⟩
  have hinside : ∀ name ∈ ["toLabel"], IsTransparent name := by decide
  have hiff := (hshown "FORMAT" ["toLabel"] "Name" (by decide) hinside).mpr (by decide)
  refine (hiff (q.groupBy.map signature) none).mpr ?_
  rw [hgroups]
  decide +kernel

def distances : String :=
  "SELECT COUNT(Id), FORMAT(DISTANCE(Name, GEOLOCATION(37, 122))) FROM Account " ++
    "GROUP BY DISTANCE(Name, GEOLOCATION(37, 122)) LIMIT 5"

/-- The signature is cut at the first comma of the grouped expression, so that the expression counts as ungrouped
when it is shown in another form. -/
theorem distance_ungrouped : ∃ q, parse distances = .ok q ∧
    .call "FORMAT" ["DISTANCE(Name, GEOLOCATION(37, 122))"] none ∈ q.items ∧ (∀ item ∈ q.items, Unquoted item) ∧
    signature "DISTANCE(Name, GEOLOCATION(37, 122))" ∈ q.groupBy.map signature ∧
    ungrouped "FORMAT(DISTANCE(Name, GEOLOCATION(37, 122)))" "FORMAT(DISTANCE(Name, GEOLOCATION(37, 122)))" ∈
      aggregateRule q := by
  obtain ⟨q, hq, hfine⟩ := exists_ok_of_any (r := parse distances)
    (p := fun q => q.items == [.call "COUNT" ["Id"] none,
        .call "FORMAT" ["DISTANCE(Name, GEOLOCATION(37, 122))"] none] &&
      q.groupBy == ["DISTANCE(Name, GEOLOCATION(37, 122))"] &&
      (aggregateRule q).contains (ungrouped "FORMAT(DISTANCE(Name, GEOLOCATION(37, 122)))"
        "FORMAT(DISTANCE(Name, GEOLOCATION(37, 122)))")) (by decide +kernel)
  simp only [Bool.and_eq_true, beq_iff_eq, List.contains_iff_mem] at hfine
  obtain ⟨⟨hitems, hgroups⟩, hreported⟩ := hfine
  refine ⟨q, hq, by simp [hitems], ?_, by simp [hgroups], hreported⟩
  rw [hitems]
  simp [Unquoted]

end Validator

end Soql
