import Mathlib.Data.List.Infix
import Soql.Nearest
import Soql.Proofs.Text.Distance

namespace Soql.Nearest

open Text

section First

variable {α β : Type} {d : α → Nat} {items : List α} {a : α}

/-- The first of those items that are the least distance away. -/
def IsFirstNearest (d : α → Nat) (items : List α) (a : α) : Prop :=
  ∃ before after, items = before ++ a :: after ∧ (∀ b ∈ before, d a < d b) ∧ ∀ b ∈ after, d a ≤ d b

theorem isFirstNearest_cons {b : α} : IsFirstNearest d (b :: items) a ↔
    b = a ∧ (∀ c ∈ items, d a ≤ d c) ∨ d a < d b ∧ IsFirstNearest d items a := by
  constructor
  · rintro ⟨before, after, hitems, hbefore, hafter⟩
    cases before with
    | nil =>
      obtain ⟨rfl, rfl⟩ := List.cons.inj hitems
      exact .inl ⟨rfl, hafter⟩
    | cons first before =>
      obtain ⟨rfl, rfl⟩ := List.cons.inj hitems
      obtain ⟨hfirst, hbefore⟩ := List.forall_mem_cons.mp hbefore
      exact .inr ⟨hfirst, before, after, rfl, hbefore, hafter⟩
  · rintro (⟨rfl, hafter⟩ | ⟨hfirst, before, after, rfl, hbefore, hafter⟩)
    · exact ⟨[], items, rfl, nofun, hafter⟩
    · exact ⟨b :: before, after, rfl, List.forall_mem_cons.mpr ⟨hfirst, hbefore⟩, hafter⟩

/-- The first of the nearest items is found if it is nearer than the bound; otherwise what was the best
before stays the best. -/
theorem firstNearest_eq_some_iff {best : Option α} {bound : Int} :
    firstNearest d best bound items = some a ↔
      IsFirstNearest d items a ∧ (d a : Int) < bound ∨ best = some a ∧ ∀ b ∈ items, bound ≤ d b := by
  induction items generalizing best bound with
  | nil => simp [firstNearest, IsFirstNearest]
  | cons b items ih =>
    rw [firstNearest, isFirstNearest_cons, List.forall_mem_cons]
    split
    case isTrue hnear =>
      -- The item becomes the best one, and its distance the bound.
      rw [ih, Option.some.injEq]
      constructor
      · rintro (⟨hfirst, hlt⟩ | ⟨rfl, hrest⟩)
        · exact .inl ⟨.inr ⟨by omega, hfirst⟩, by omega⟩
        · exact .inl ⟨.inl ⟨rfl, fun c hc => by exact_mod_cast hrest c hc⟩, hnear⟩
      · rintro (⟨⟨rfl, hrest⟩ | ⟨hlt, hfirst⟩, -⟩ | ⟨-, hfar, -⟩)
        · exact .inr ⟨rfl, fun c hc => by exact_mod_cast hrest c hc⟩
        · exact .inl ⟨hfirst, by omega⟩
        · omega
    case isFalse hfar =>
      rw [ih]
      constructor
      · rintro (⟨hfirst, hlt⟩ | ⟨hbest, hrest⟩)
        · exact .inl ⟨.inr ⟨by omega, hfirst⟩, hlt⟩
        · exact .inr ⟨hbest, by omega, hrest⟩
      · rintro (⟨⟨rfl, -⟩ | ⟨-, hfirst⟩, hlt⟩ | ⟨hbest, -, hrest⟩)
        · omega
        · exact .inl ⟨hfirst, hlt⟩
        · exact .inr ⟨hbest, hrest⟩

theorem firstNearest_eq_none_iff {best : Option α} {bound : Int} :
    firstNearest d best bound items = none ↔ best = none ∧ ∀ b ∈ items, bound ≤ d b := by
  induction items generalizing best bound with
  | nil => simp [firstNearest]
  | cons b items ih =>
    rw [firstNearest, List.forall_mem_cons]
    split
    case isTrue hnear =>
      rw [ih]
      constructor
      · exact fun h => absurd h.1 (Option.some_ne_none b)
      · exact fun h => absurd h.2.1 (not_le_of_gt hnear)
    case isFalse hfar =>
      rw [ih]
      exact ⟨fun h => ⟨h.1, le_of_not_gt hfar, h.2⟩, fun h => ⟨h.1, h.2.2⟩⟩

theorem firstNearest_map (f : β → α) (best : Option β) (bound : Int) (items : List β) :
    firstNearest d (best.map f) bound (items.map f) =
      (firstNearest (fun b => d (f b)) best bound items).map f := by
  induction items generalizing best bound with
  | nil => rfl
  | cons b items ih =>
    rw [List.map_cons, firstNearest, firstNearest]
    split
    · exact ih (some b) _
    · exact ih best bound

end First

/-- A candidate is suggested by a name whatever its distance: it is the same name, or the name, long enough,
is its start or another part of it; letter case does not count. -/
def Suggests (name candidate : String) : Prop :=
  lower candidate = lower name ∨ partLength ≤ (lower name).length ∧
    ((lower name).toList <+: (lower candidate).toList ∨ (lower name).toList <:+: (lower candidate).toList)

theorem occurs_iff {sub s : List Char} : occurs sub s = true ↔ sub <:+: s := by
  induction s with
  | nil => simp [occurs]
  | cons c s ih => rw [occurs, Bool.or_eq_true, ih, List.isPrefixOf_iff_prefix, List.infix_cons_iff]

/-- Where no candidate is suggested otherwise, the nearest one is looked for. -/
theorem closest_of_not_suggested {name : String} {candidates : List String} {edits : Int}
    (h : ∀ c ∈ candidates, c ≠ "" ∧ ¬Suggests name c) :
    closest name candidates edits =
      firstNearest (fun c => editDistance (lower name) (lower c)) none (edits + 1) candidates := by
  have hlower (s : String) : (lower s).toList = lowerChars s.toList := String.toList_ofList ..
  have hpool : candidates.filter (!·.isEmpty) = candidates := by
    rw [List.filter_eq_self]
    intro c hc
    simpa using (h c hc).1
  have hsame : candidates.find? (fun c => lowerChars c.toList == lowerChars name.toList) = none := by
    rw [List.find?_eq_none]
    intro c hc hequal
    refine (h c hc).2 (.inl (String.toList_injective ?_))
    rwa [hlower, hlower, ← beq_iff_eq]
  -- A part of a candidate is looked for in two ways, each of which is a suggestion.
  have hpart {p : List Char → List Char → Bool} (hp : ∀ a b, p a b = true → a <+: b ∨ a <:+: b)
      (hlong : partLength ≤ (lowerChars name.toList).length) :
      candidates.find? (fun c => p (lowerChars name.toList) (lowerChars c.toList)) = none := by
    rw [List.find?_eq_none]
    intro c hc hsub
    refine (h c hc).2 (.inr ⟨?_, ?_⟩)
    · rwa [← String.length_toList, hlower]
    · rw [hlower, hlower]
      exact hp _ _ hsub
  have hstarts := hpart (p := List.isPrefixOf) fun a b hab => .inl (List.isPrefixOf_iff_prefix.mp hab)
  have hholds := hpart (p := occurs) fun a b hab => .inr (occurs_iff.mp hab)
  have hnearest := firstNearest_map (d := fun p => distance (lowerChars name.toList) p.2)
    (fun c => (c, lowerChars c.toList)) none (edits + 1) candidates
  rw [Option.map_none] at hnearest
  unfold closest
  simp only [hpool, List.find?_map, Function.comp_def, hsame, Option.map_none, Option.orElse_none]
  rw [hnearest]
  by_cases hlong : partLength ≤ (lowerChars name.toList).length
  · simp [hlong, hstarts, hholds, editDistance, hlower, Function.comp_def]
  · simp [hlong, editDistance, hlower, Function.comp_def]

/-- The distance of two texts is the least number of edits that turn the one into the other, so that it is a
metric; of candidates none of which is suggested otherwise, the first that is the fewest edits away from a
name is found, if they are no more than allowed, and nothing is found if all are further away. -/
theorem closest_fewest_edits :
    (∀ a b : String, IsLeast {n | Edits n a.toList b.toList} (editDistance a b) ∧
      editDistance a b = editDistance b a ∧ (editDistance a b = 0 ↔ a = b) ∧
      ∀ c, editDistance a c ≤ editDistance a b + editDistance b c) ∧
    ∀ (name : String) (candidates : List String) (edits : Int),
      (∀ c ∈ candidates, c ≠ "" ∧ ¬Suggests name c) →
      (∀ found, closest name candidates edits = some found ↔
        IsFirstNearest (fun c => editDistance (lower name) (lower c)) candidates found ∧
          editDistance (lower name) (lower found) ≤ edits) ∧
      (closest name candidates edits = none ↔
        ∀ c ∈ candidates, edits < editDistance (lower name) (lower c)) := by
  refine ⟨fun a b => ⟨isLeast_distance _ _, distance_comm _ _, ?_, fun c => distance_triangle _ _ _⟩,
    fun name candidates edits h => ?_⟩
  · rw [editDistance, distance_eq_zero_iff, String.toList_inj]
  · rw [closest_of_not_suggested h]
    constructor
    · intro found
      rw [firstNearest_eq_some_iff]
      simp only [reduceCtorEq, false_and, or_false, Int.lt_add_one_iff]
    · rw [firstNearest_eq_none_iff]
      simp only [true_and, Int.add_one_le_iff]

theorem closest_fewest_edits_account :
    (∀ c ∈ ["Contact", "Account", "Amount"], c ≠ "" ∧ ¬Suggests "Acount" c) ∧
      closest "Acount" ["Contact", "Account", "Amount"] 3 = some "Account" ∧
      IsFirstNearest (fun c => editDistance (lower "Acount") (lower c)) ["Contact", "Account", "Amount"]
        "Account" ∧
      editDistance (lower "Acount") (lower "Account") ≤ (3 : Int) := by
  have hcandidates : ∀ c ∈ ["Contact", "Account", "Amount"], c ≠ "" ∧ ¬Suggests "Acount" c := by
    unfold Suggests
    decide +kernel
  have hfound : closest "Acount" ["Contact", "Account", "Amount"] 3 = some "Account" := by decide +kernel
  exact ⟨hcandidates, hfound, ((closest_fewest_edits.2 _ _ 3 hcandidates).1 "Account").mp hfound⟩

end Soql.Nearest
