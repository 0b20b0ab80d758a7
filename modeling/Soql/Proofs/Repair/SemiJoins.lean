import Soql.Proofs.Repair.Fits
import Soql.Proofs.Repair.Stable

namespace Soql

open Text

section Changes

variable {κ : Type} (first second : Leaf κ → Leaf κ)

mutual

theorem mapLeaves_mapLeaves (f : Filter κ) :
    (f.mapLeaves first).mapLeaves second = f.mapLeaves (second ∘ first) := by
  cases f with
  | leaf l => rfl
  | combine c operands => exact congrArg (Filter.combine c) (mapAllLeaves_mapAllLeaves operands)
  | negation operand => exact congrArg Filter.negation (mapLeaves_mapLeaves operand)

theorem mapAllLeaves_mapAllLeaves (fs : List (Filter κ)) :
    Filter.mapAllLeaves second (Filter.mapAllLeaves first fs) = Filter.mapAllLeaves (second ∘ first) fs := by
  cases fs with
  | nil => rfl
  | cons f rest => exact congrArg₂ List.cons (mapLeaves_mapLeaves f) (mapAllLeaves_mapAllLeaves rest)

end

mutual

theorem mapLeaves_id (f : Filter κ) : f.mapLeaves id = f := by
  cases f with
  | leaf l => rfl
  | combine c operands => exact congrArg (Filter.combine c) (mapAllLeaves_id operands)
  | negation operand => exact congrArg Filter.negation (mapLeaves_id operand)

theorem mapAllLeaves_id (fs : List (Filter κ)) : Filter.mapAllLeaves id fs = fs := by
  cases fs with
  | nil => rfl
  | cons f rest => exact congrArg₂ List.cons (mapLeaves_id f) (mapAllLeaves_id rest)

end

theorem mapFilter_mapFilter (q : QueryOf κ) :
    (q.mapFilter first).mapFilter second = q.mapFilter (second ∘ first) := by
  unfold QueryOf.mapFilter
  cases q.filter with
  | none => rfl
  | some f => simp [mapLeaves_mapLeaves]

theorem mapFilter_id (q : QueryOf κ) : q.mapFilter id = q := by
  obtain ⟨object, items, scope, filter, groupBy, having, orderBy, limit, offset, tolerant⟩ := q
  unfold QueryOf.mapFilter
  cases filter with
  | none => rfl
  | some f => rw [Option.map_some, mapLeaves_id]

end Changes

namespace Action

/-- What a correction does to a condition, if it is one that turns comparisons into semi-joins. -/
def changeLeaf : Action → Leaf InnerQuery → Leaf InnerQuery
  | toSemiJoin path junction link parentField => intoSemiJoin path junction link parentField
  | _ => id

def changeLeaves (actions : List Action) (l : Leaf InnerQuery) : Leaf InnerQuery :=
  actions.foldl (fun l a => a.changeLeaf l) l

def joins : Action → Bool
  | toSemiJoin _ _ _ _ => true
  | _ => false

theorem foldl_joins {q : Query} {actions : List Action} (h : ∀ a ∈ actions, a.joins = true) :
    actions.foldl apply q = q.mapFilter (changeLeaves actions) := by
  induction actions generalizing q with
  | nil => exact (mapFilter_id q).symm
  | cons a actions ih =>
    obtain ⟨ha, hrest⟩ := List.forall_mem_cons.mp h
    have hfirst : a.apply q = q.mapFilter a.changeLeaf := by
      cases a with
      | toSemiJoin path junction link parentField => rfl
      | _ => cases ha
    rw [List.foldl_cons, ih hrest, hfirst, mapFilter_mapFilter]
    rfl

/-- Semi-joins can always be made. -/
theorem performAll_joins (q : Query) {actions : List Action} (h : ∀ a ∈ actions, a.joins = true) :
    performAll q actions = .ok (applyAll q actions) := by
  apply performAll_plain
  intro a ha new hnew
  have hjoin := h a ha
  cases a with
  | toSemiJoin path junction link parentField => cases hnew
  | _ => cases hjoin

/-- Semi-joins are made of all conditions at once. -/
theorem applyAll_joins (q : Query) {actions : List Action} (h : ∀ a ∈ actions, a.joins = true) :
    applyAll q actions = q.mapFilter (changeLeaves (inOrder actions)) :=
  foldl_joins fun a ha => h a (mem_inOrder.mp ha)

theorem changeLeaves_semiJoin (actions : List Action) (j : SemiJoin InnerQuery) :
    changeLeaves actions (.semiJoin j) = .semiJoin j := by
  induction actions with
  | nil => rfl
  | cons a actions ih =>
    have hkept : a.changeLeaf (.semiJoin j) = .semiJoin j := by cases a <;> rfl
    rwa [changeLeaves, List.foldl_cons, hkept]

/-- A comparison stays unless a correction is about it; then it is the semi-join of one that is. What has
become a semi-join is changed no further. -/
theorem changeLeaves_compare (actions : List Action) (c : Comparison) :
    (changeLeaves actions (.compare c) = .compare c ∧ ∀ path junction link parentField,
      toSemiJoin path junction link parentField ∈ actions → sameLower c.field path = false) ∨
    ∃ path junction link parentField, toSemiJoin path junction link parentField ∈ actions ∧
      sameLower c.field path = true ∧ changeLeaves actions (.compare c) =
        .semiJoin (joinThrough junction link parentField (afterFirstPoint path) c) := by
  induction actions with
  | nil => exact .inl ⟨rfl, by simp⟩
  | cons a actions ih =>
    -- The first correction about the comparison decides; the later ones find a semi-join in its place.
    by_cases hmatch : ∃ path junction link parentField, a = toSemiJoin path junction link parentField ∧
        sameLower c.field path = true
    · obtain ⟨path, junction, link, parentField, rfl, hsame⟩ := hmatch
      refine .inr ⟨path, junction, link, parentField, List.mem_cons_self, hsame, ?_⟩
      have hchange : changeLeaf (.toSemiJoin path junction link parentField) (.compare c) =
          .semiJoin (joinThrough junction link parentField (afterFirstPoint path) c) := by
        rw [changeLeaf, intoSemiJoin, if_pos hsame]
      rw [changeLeaves, List.foldl_cons, hchange]
      exact changeLeaves_semiJoin actions _
    · have hother : ∀ path junction link parentField, a = toSemiJoin path junction link parentField →
          sameLower c.field path = false := by
        intro path junction link parentField ha
        rw [← Bool.not_eq_true]
        intro hsame
        exact hmatch ⟨path, junction, link, parentField, ha, hsame⟩
      have hkept : a.changeLeaf (.compare c) = .compare c := by
        cases a with
        | toSemiJoin path junction link parentField =>
          rw [changeLeaf, intoSemiJoin, hother _ _ _ _ rfl]
          rfl
        | _ => rfl
      rw [changeLeaves, List.foldl_cons, hkept]
      rcases ih with ⟨hsame, hnone⟩ | ⟨path, junction, link, parentField, hmem, hfound⟩
      · refine .inl ⟨hsame, ?_⟩
        intro path junction link parentField hmem
        rcases List.mem_cons.mp hmem with ha | hmem
        · exact hother _ _ _ _ ha.symm
        · exact hnone _ _ _ _ hmem
      · exact .inr ⟨path, junction, link, parentField, List.mem_cons_of_mem a hmem, hfound⟩

end Action

namespace Repair

variable {σ : Type} (f : Query → List Message)

/-- Setting the limit leaves the query valid and takes no pass. -/
theorem settleValid_valid {p : Progress} (h : classify p.messages = .valid) {s : σ} {o : Outcome}
    (hsettled : ((settleValid (fun q => (pure (f q) : StateM σ _)) p).run s).1 = .ok o) :
    o.status = .valid ∧ o.passes = p.passes := by
  have hends : Ends _ ⟨0, p, s⟩ _ _ := settleValid_ends (fun q => (pure (f q) : StateM σ _)) h s
  rw [hsettled] at hends
  generalize ((settleValid (fun q => (pure (f q) : StateM σ _)) p).run s).2 = s' at hends
  cases hends with
  | valid valid => exact ⟨rfl, rfl⟩
  | limitRefused valid checked => exact ⟨rfl, rfl⟩
  | limited valid asked checked clean => exact ⟨rfl, rfl⟩
  | unfinished invalid => exact absurd h invalid

/-- Where the corrections that are wanted can be made and leave no error, the run makes them, in one pass if
there are any errors at all, and settles. -/
theorem run_once {bounds : Bounds} {q : Query} {used : Int} (hused : used < bounds.maxPasses)
    (hanswered : ∀ m ∈ Message.errors (f q), m.action.isSome = true)
    (hmade : Action.performAll q (wantedActions (f q)) = .ok (Action.applyAll q (wantedActions (f q))))
    (hwritten : isWritten (wantedActions (f q)) (Action.applyAll q (wantedActions (f q))) = true)
    (hclean : Message.errors (f (Action.applyAll q (wantedActions (f q)))) = []) (s : σ) :
    ∃ p : Progress, p.query = Action.applyAll q (wantedActions (f q)) ∧ p.messages = f p.query ∧
      p.passes = used + (if Message.errors (f q) = [] then 0 else 1) ∧
      run (fun q => pure (f q)) bounds q used s = (settleValid (fun q => pure (f q)) p).run s := by
  let start : Progress := { query := q, messages := f q, passes := used }
  obtain ⟨left, hleft⟩ : ∃ left, (bounds.maxPasses - used).toNat = left + 1 :=
    ⟨(bounds.maxPasses - used).toNat - 1, by omega⟩
  have hrun : run (fun q => (pure (f q) : StateM σ _)) bounds q used s =
      (loop (fun q => pure (f q)) bounds.stallLimit (left + 1) start).run s := by
    rw [← hleft]
    rfl
  by_cases hnone : Message.errors (f q) = []
  · refine ⟨start, ?_, rfl, ?_, ?_⟩
    · rw [wantedActions, hnone]
      rfl
    · rw [if_pos hnone]
      exact (Int.add_zero used).symm
    · rw [hrun, loop_valid _ _ (classify_valid_of_errors hnone)]
  -- One pass is made, after which the loop finds nothing more to do.
  · have hrepairable : classify start.messages = .repairable := by
      have hall : (Message.errors (f q)).all (·.action.isSome) = true := List.all_eq_true.mpr hanswered
      have hsome : (Message.errors (f q)).isEmpty = false := List.isEmpty_eq_false_iff.mpr hnone
      change classify (f q) = .repairable
      simp only [classify, hsome, hall]
      rfl
    have hcount : errorCount (f start.candidate) = 0 := List.length_eq_zero_iff.mpr hclean
    have hlong : ¬isWritten (wantedActions start.messages) start.candidate = false := by
      rw [Bool.not_eq_false]
      exact hwritten
    refine ⟨start.keep (f start.candidate), rfl, rfl, ?_, ?_⟩
    · rw [if_neg hnone]
      rfl
    · rw [hrun, loop_pass _ _ hrepairable hmade rfl, if_neg hlong, if_neg (by omega), if_neg (by omega),
        loop_valid _ _ (classify_valid_of_errors hclean)]

end Repair

end Soql
