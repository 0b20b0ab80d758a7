import Mathlib.Order.Lattice

namespace Soql

variable {α β : Type} [LinearOrder β] {place : α → β} {before : α → α → Bool}

/-- Items are sorted by their places. -/
theorem pairwise_mergeSort_of_place (h : ∀ a b, before a b = true ↔ place a < place b) (items : List α) :
    (items.mergeSort fun a b => !before b a).Pairwise fun a b => place a ≤ place b := by
  have hle (a b : α) : (!before b a) = true ↔ place a ≤ place b := by
    rw [Bool.not_eq_true', ← Bool.not_eq_true, h, not_lt]
  have htrans (a b c : α) (hab : (!before b a) = true) (hbc : (!before c b) = true) :
      (!before c a) = true :=
    (hle a c).mpr (((hle a b).mp hab).trans ((hle b c).mp hbc))
  have htotal (a b : α) : (!before b a || !before a b) = true := by
    rw [Bool.or_eq_true, hle, hle]
    exact le_total _ _
  exact (List.pairwise_mergeSort htrans htotal items).imp fun hab => (hle _ _).mp hab

/-- Where no two items have the same place, each goes before all that follow it. -/
theorem pairwise_mergeSort_lt (h : ∀ a b, before a b = true ↔ place a < place b) {items : List α}
    (hplaces : items.Pairwise fun a b => place a ≠ place b) :
    (items.mergeSort fun a b => !before b a).Pairwise fun a b => place a < place b := by
  have hdistinct := (List.mergeSort_perm items fun a b => !before b a).symm.pairwise hplaces Ne.symm
  exact (pairwise_mergeSort_of_place h items).imp₂ (fun _ _ hle hne => lt_of_le_of_ne hle hne) hdistinct

/-- Items at different places are sorted in one way, in whatever order they come. -/
theorem mergeSort_eq_of_perm (h : ∀ a b, before a b = true ↔ place a < place b) {items others : List α}
    (hplaces : items.Pairwise fun a b => place a ≠ place b) (hperm : others.Perm items) :
    (others.mergeSort fun a b => !before b a) = items.mergeSort fun a b => !before b a := by
  have hothers := hperm.symm.pairwise hplaces Ne.symm
  refine List.Perm.eq_of_pairwise ?_ (pairwise_mergeSort_lt h hothers) (pairwise_mergeSort_lt h hplaces) ?_
  · intro a b _ _ hab hba
    exact absurd hba hab.asymm
  · exact (List.mergeSort_perm ..).trans (hperm.trans (List.mergeSort_perm ..).symm)

end Soql
