import Mathlib.Data.Int.Order.Basic
import Mathlib.Data.Prod.Lex
import Mathlib.Tactic.Tauto
import Soql.Decimal.Binary

/-!
The order of floating-point numbers. What is not a number is on no side of a comparison, and the others
are in the order of triples of whole numbers. Differences, products and quotients are numbers as long as
neither nought nor infinity stands in the wrong place.
-/

namespace Soql.Decimal

open Float.Model UnpackedFloat

section Order

/-- Where a number stands among the others: its kind, then its exponent, then its mantissa. -/
def standing : UnpackedFloat → Int ×ₗ Int ×ₗ Int
  | .infinity .negative => toLex (-2, toLex (0, 0))
  | .finite .negative m e _ => toLex (-1, toLex (-e, -m))
  | .zero _ => toLex (0, toLex (0, 0))
  | .finite .positive m e _ => toLex (1, toLex (e, m))
  | .infinity .positive => toLex (2, toLex (0, 0))
  | .notANumber => toLex (3, toLex (0, 0))

theorem compare_neg (i j : Int) : compare (-i) (-j) = compare j i := by
  simp only [Int.compare_eq_ite_lt, Int.neg_lt_neg_iff]

theorem compare_natCast (m n : Nat) : compare (m : Int) n = compare m n := by
  simp only [Int.compare_eq_ite_lt, Nat.compare_eq_ite_lt, Int.ofNat_lt]

/-- Numbers are compared as they stand. -/
theorem compare_standing {a b : UnpackedFloat} (ha : a.isNaN = false) (hb : b.isNaN = false) :
    a.compare b = some (compare (standing a) (standing b)) := by
  have hnegative (m n : Nat) (e f : Int) : ((compare e f).then (compare m n)).swap =
      (compare (-e) (-f)).then (compare (-m : Int) (-n)) := by
    rw [compare_neg, compare_neg, compare_natCast, Ordering.swap_then, Int.compare_swap, Nat.compare_swap]
  have hpositive (m n : Nat) (e f : Int) : (compare e f).then (compare m n) =
      (compare e f).then (compare (m : Int) n) := by
    rw [compare_natCast]
  -- Only two finite numbers of one sign are told apart by more than their kind.
  rcases a with ⟨_ | _⟩ | _ | _ | ⟨_ | _, m, e, _⟩ <;>
    rcases b with ⟨_ | _⟩ | _ | _ | ⟨_ | _, n, f, _⟩ <;>
    first
    | cases ha; done
    | cases hb; done
    | exact congrArg some (hnegative m n e f)
    | exact congrArg some (hpositive m n e f)
    | rfl

theorem compare_isNaN {a b : UnpackedFloat} (h : a.isNaN = true ∨ b.isNaN = true) : a.compare b = none := by
  rcases a with ⟨_ | _⟩ | _ | _ | ⟨_ | _, _, _, _⟩ <;>
    rcases b with ⟨_ | _⟩ | _ | _ | ⟨_ | _, _, _, _⟩ <;>
    first
    | rfl
    | rcases h with h | h <;> cases h

variable {a b c : Float}

theorem lt_iff_compare : a < b ↔ a.toModel.unpack.compare b.toModel.unpack = some .lt := by
  have hlt : a < b ↔ (a.toModel.unpack.compare b.toModel.unpack == some .lt) = true := decide_eq_true_iff
  rw [hlt, beq_iff_eq]

theorem lt_iff_standing (ha : a.isNaN = false) (hb : b.isNaN = false) :
    a < b ↔ standing a.toModel.unpack < standing b.toModel.unpack := by
  rw [lt_iff_compare, compare_standing ha hb, Option.some_inj, compare_lt_iff_lt]

theorem le_iff_standing (ha : a.isNaN = false) (hb : b.isNaN = false) :
    a ≤ b ↔ standing a.toModel.unpack ≤ standing b.toModel.unpack := by
  have hle : a ≤ b ↔ (a.toModel.unpack.compare b.toModel.unpack).any (·.isLE) = true := decide_eq_true_iff
  rw [hle, compare_standing ha hb, Option.any_some, ← compare_le_iff_le, Ordering.isLE_iff_ne_gt]

/-- A number that is not below another is at or above it. -/
theorem le_of_not_below (ha : a.isNaN = false) (hb : b.isNaN = false) (h : ¬a < b) : b ≤ a := by
  rw [lt_iff_standing ha hb, not_lt] at h
  exact (le_iff_standing hb ha).mpr h

theorem isNaN_of_lt (h : a < b) : a.isNaN = false ∧ b.isNaN = false := by
  rw [lt_iff_compare] at h
  constructor
  · by_contra hnan
    rw [compare_isNaN (.inl (Bool.eq_true_of_not_eq_false hnan))] at h
    cases h
  · by_contra hnan
    rw [compare_isNaN (.inr (Bool.eq_true_of_not_eq_false hnan))] at h
    cases h

/-- A number is above the lesser or below the greater of two others. -/
theorem lt_or_lt_of_lt (hb : b.isNaN = false) (h : a < c) : a < b ∨ b < c := by
  obtain ⟨ha, hc⟩ := isNaN_of_lt h
  rw [lt_iff_standing ha hc] at h
  rw [lt_iff_standing ha hb, lt_iff_standing hb hc]
  rcases lt_or_ge (standing a.toModel.unpack) (standing b.toModel.unpack) with hlt | hge
  · exact .inl hlt
  · exact .inr (lt_of_le_of_lt hge h)

/-- What is sorted to the front by numbers is below nothing else. -/
theorem not_lt_of_mergeSort {α : Type} {key : α → Float} {items rest : List α} {best : α}
    (hitems : ∀ a ∈ items, (key a).isNaN = false)
    (h : items.mergeSort (fun a b => !decide (key a < key b)) = best :: rest) :
    ∀ a ∈ items, ¬key best < key a := by
  -- What is not a number would not be sorted at all, so the standing takes the place of the number.
  let above (a b : α) : Bool := decide (standing (key b).toModel.unpack ≤ standing (key a).toModel.unpack)
  have hsame : items.mergeSort (fun a b => !decide (key a < key b)) = items.mergeSort above := by
    have hagree : ∀ a ∈ items, ∀ b ∈ items, (!decide (key a < key b)) = above (id a) (id b) := by
      intro a ha b hb
      rw [Bool.eq_iff_iff, Bool.not_eq_true', decide_eq_false_iff_not,
        lt_iff_standing (hitems a ha) (hitems b hb), not_lt, decide_eq_true_iff]
      rfl
    simpa only [List.map_id] using List.map_mergeSort hagree
  have hsorted : (items.mergeSort above).Pairwise (above · ·) := by
    apply List.pairwise_mergeSort
    · intro a b c hab hbc
      exact decide_eq_true (le_trans (of_decide_eq_true hbc) (of_decide_eq_true hab))
    · intro a b
      rw [Bool.or_eq_true]
      exact (le_total _ _).imp decide_eq_true decide_eq_true
  rw [← hsame, h, List.pairwise_cons] at hsorted
  have hbest : best ∈ items := by
    rw [← List.mem_mergeSort, h]
    exact List.mem_cons_self
  intro a ha hlt
  have hmem : a ∈ best :: rest := by rwa [← h, List.mem_mergeSort]
  have hlt := (lt_iff_standing (hitems best hbest) (hitems a ha)).mp hlt
  rcases List.mem_cons.mp hmem with rfl | hrest
  · exact lt_irrefl _ hlt
  · exact absurd hlt (not_lt.mpr (of_decide_eq_true (hsorted.1 a hrest)))

end Order

section Numbers

theorem isNaN_unpack (b : BitVec Format.binary64.numBits) : (UnpackedFloat.unpack .binary64 b).isNaN = true ↔
    unpackExponent b = -1#_ ∧ unpackMantissa b ≠ 0#_ := by
  unfold UnpackedFloat.unpack
  dsimp only
  by_cases hexponent : unpackExponent b = -1#_
  · rw [if_pos hexponent]
    by_cases hmantissa : unpackMantissa b = 0#_
    · rw [if_pos hmantissa]
      exact iff_of_false Bool.false_ne_true fun h => h.2 hmantissa
    · rw [if_neg hmantissa]
      exact iff_of_true rfl ⟨hexponent, hmantissa⟩
  · rw [if_neg hexponent]
    refine iff_of_false ?_ fun h => hexponent h.1
    by_cases hzero : unpackExponent b = 0#_
    · rw [if_pos hzero]
      by_cases hmantissa : unpackMantissa b = 0#_
      · rw [dif_pos hmantissa]
        exact Bool.false_ne_true
      · rw [dif_neg hmantissa]
        exact Bool.false_ne_true
    · rw [if_neg hzero]
      exact Bool.false_ne_true

theorem exponent_ne {n : Nat} (h : n + 1 < 2048) : BitVec.ofNat Format.binary64.exponentBits n ≠ -1#_ := by
  intro heq
  have hnat := congrArg BitVec.toNat heq
  have hmod : (BitVec.ofNat Format.binary64.exponentBits n).toNat = n % 2048 := rfl
  have hmax : (-BitVec.ofNat Format.binary64.exponentBits 1).toNat = 2047 := by decide
  rw [hmod, hmax] at hnat
  omega

/-- A number is still one when it is packed. -/
theorem isNaN_pack (u : UnpackedFloat) : (Float.Model.pack u).unpack.isNaN = u.isNaN := by
  have hpacked : (Float.Model.pack u).unpack =
    UnpackedFloat.unpack .binary64 (UnpackedFloat.pack .binary64 u) := rfl
  have hcomponents (s : Sign) (e : BitVec Format.binary64.exponentBits)
      (m : BitVec Format.binary64.mantissaBitsWithoutImplicit) (h : e ≠ -1#_ ∨ m = 0#_) :
      ¬(UnpackedFloat.unpack .binary64 (packComponents .binary64 s e m)).isNaN = true := by
    rw [isNaN_unpack, unpackExponent_packComponents, unpackMantissa_packComponents]
    tauto
  rw [hpacked, Bool.eq_iff_iff]
  -- An exponent of all ones is kept for infinity, so that no finite number is packed into it.
  cases u with
  | notANumber => decide
  | infinity s => exact iff_of_false (hcomponents s _ _ (.inr rfl)) Bool.false_ne_true
  | zero s => exact iff_of_false (hcomponents s _ _ (.inr rfl)) Bool.false_ne_true
  | finite s m e hm =>
    apply iff_of_false _ Bool.false_ne_true
    unfold UnpackedFloat.pack
    dsimp only
    split_ifs with hlarge
    · exact hcomponents s _ _ (.inr rfl)
    · exact hcomponents s _ _ (.inl (exponent_ne (Nat.lt_of_not_le hlarge)))
    · exact hcomponents s _ _ (.inl (by decide))

theorem isNaN_dite {p : Prop} [Decidable p] {u : p → UnpackedFloat} {v : ¬p → UnpackedFloat}
    (hu : ∀ h, (u h).isNaN = false) (hv : ∀ h, (v h).isNaN = false) :
    (if h : p then u h else v h).isNaN = false := by
  by_cases h : p
  · rw [dif_pos h]
    exact hu h
  · rw [dif_neg h]
    exact hv h

theorem isNaN_roundWithAccuracy (spec : Float.Model.Format) (s : Sign) (m : Nat) (e : Int)
    (accuracy : Accuracy) : (roundWithAccuracy spec s m e accuracy).isNaN = false := by
  unfold roundWithAccuracy
  exact isNaN_dite (fun _ => rfl) fun _ => rfl

theorem isNaN_normalize (spec : Float.Model.Format) (m e : Int) (s : Sign) :
    (UnpackedFloat.normalize spec m e s).isNaN = false := by
  unfold UnpackedFloat.normalize
  split
  · exact isNaN_roundWithAccuracy ..
  · rfl
  · exact isNaN_roundWithAccuracy ..

/-- A share of something is a number. -/
theorem isNaN_quotient (a : Nat) {b : Nat} (hb : b ≠ 0) : (quotient a b).isNaN = false := by
  have hmodel : (quotient a b).isNaN =
    (Float.Model.pack (.div .binary64 (unrounded a) (unrounded b))).unpack.isNaN := rfl
  rw [hmodel, isNaN_pack, unrounded, unrounded, dif_neg hb]
  by_cases ha : a = 0
  · rw [dif_pos ha]
    rfl
  · rw [dif_neg ha]
    exact isNaN_roundWithAccuracy ..

def isFactor (x : Float) : Bool :=
  match x.toModel.unpack with
  | .finite .. => true
  | _ => false

variable {x y : Float}

theorem isFactor_finite (hx : isFactor x = true) : ∃ s m e hm, x.toModel.unpack = .finite s m e hm := by
  unfold isFactor at hx
  cases hmodel : x.toModel.unpack with
  | finite s m e hm => exact ⟨s, m, e, hm, rfl⟩
  | infinity s =>
    rw [hmodel] at hx
    cases hx
  | notANumber =>
    rw [hmodel] at hx
    cases hx
  | zero s =>
    rw [hmodel] at hx
    cases hx

theorem isNaN_sub (hx : isFactor x = true) (hy : y.isNaN = false) : (x - y).isNaN = false := by
  obtain ⟨s, m, e, hm, hfinite⟩ := isFactor_finite hx
  have hmodel : (x - y).isNaN =
    (Float.Model.pack (.sub .binary64 x.toModel.unpack y.toModel.unpack)).unpack.isNaN := rfl
  have hnumber : y.toModel.unpack.isNaN = false := hy
  rw [hmodel, isNaN_pack, hfinite]
  cases hsecond : y.toModel.unpack with
  | notANumber =>
    rw [hsecond] at hnumber
    cases hnumber
  | infinity s => rfl
  | zero s => rfl
  | finite s m e hm => exact isNaN_normalize ..

theorem isNaN_mul (h : isFactor x = true ∧ y.isNaN = false ∨ x.isNaN = false ∧ isFactor y = true) :
    (x * y).isNaN = false := by
  have hmodel : (x * y).isNaN =
    (Float.Model.pack (.mul .binary64 x.toModel.unpack y.toModel.unpack)).unpack.isNaN := rfl
  have hfactor {u v : UnpackedFloat} (hu : ∃ s m e hm, u = .finite s m e hm) (hv : v.isNaN = false) :
      (UnpackedFloat.mul .binary64 u v).isNaN = false ∧ (UnpackedFloat.mul .binary64 v u).isNaN = false := by
    obtain ⟨s, m, e, hm, rfl⟩ := hu
    cases v with
    | notANumber => cases hv
    | infinity s => exact ⟨rfl, rfl⟩
    | zero s => exact ⟨rfl, rfl⟩
    | finite s m e hm => exact ⟨isNaN_roundWithAccuracy .., isNaN_roundWithAccuracy ..⟩
  rw [hmodel, isNaN_pack]
  rcases h with ⟨hx, hy⟩ | ⟨hx, hy⟩
  · exact (hfactor (isFactor_finite hx) hy).1
  · exact (hfactor (isFactor_finite hy) hx).2

end Numbers

end Soql.Decimal
