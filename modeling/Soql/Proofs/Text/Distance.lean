import Mathlib.Order.Bounds.Basic
import Soql.Text.Distance

namespace Soql.Text

inductive Edit : List Char → List Char → Prop
  | insert (front : List Char) (c : Char) (back : List Char) : Edit (front ++ back) (front ++ c :: back)
  | delete (front : List Char) (c : Char) (back : List Char) : Edit (front ++ c :: back) (front ++ back)
  | replace (front : List Char) (c d : Char) (back : List Char) :
    Edit (front ++ c :: back) (front ++ d :: back)

/-- A number of edits, one after the other, turns a text into another one. -/
inductive Edits : Nat → List Char → List Char → Prop
  | done (s : List Char) : Edits 0 s s
  | edit {n : Nat} {a b c : List Char} (h : Edit a b) (hrest : Edits n b c) : Edits (n + 1) a c

section Scripts

variable {m n : Nat} {a b c : List Char}

theorem Edit.symm (h : Edit a b) : Edit b a := by
  cases h with
  | insert front c back => exact .delete front c back
  | delete front c back => exact .insert front c back
  | replace front c d back => exact .replace front d c back

theorem Edit.cons (x : Char) (h : Edit a b) : Edit (x :: a) (x :: b) := by
  cases h with
  | insert front c back => exact .insert (x :: front) c back
  | delete front c back => exact .delete (x :: front) c back
  | replace front c d back => exact .replace (x :: front) c d back

theorem Edit.reverse (h : Edit a b) : Edit a.reverse b.reverse := by
  cases h with
  | insert front c back => simpa using Edit.insert back.reverse c front.reverse
  | delete front c back => simpa using Edit.delete back.reverse c front.reverse
  | replace front c d back => simpa using Edit.replace back.reverse c d front.reverse

theorem Edit.edits (h : Edit a b) : Edits 1 a b :=
  .edit h (.done b)

theorem Edits.trans (h : Edits m a b) (h' : Edits n b c) : Edits (m + n) a c := by
  induction h with
  | done s => rwa [Nat.zero_add]
  | edit hstep _ ih =>
    rw [Nat.succ_add]
    exact .edit hstep (ih h')

theorem Edits.symm (h : Edits n a b) : Edits n b a := by
  induction h with
  | done s => exact .done s
  | edit hstep _ ih => exact ih.trans hstep.symm.edits

/-- Edits are made in the same way on texts that are changed in a way that leaves each edit one. -/
theorem Edits.map {f : List Char → List Char} (hf : ∀ {a b}, Edit a b → Edit (f a) (f b))
    (h : Edits n a b) : Edits n (f a) (f b) := by
  induction h with
  | done s => exact .done (f s)
  | edit hstep _ ih => exact .edit (hf hstep) ih

theorem edits_reverse_iff : Edits n a.reverse b.reverse ↔ Edits n a b := by
  constructor
  · intro h
    simpa using h.map Edit.reverse
  · exact Edits.map Edit.reverse

end Scripts

/-- What it costs to turn one text into another from the left to the right: the first characters are equal,
or one is replaced by the other, or one of them is deleted or inserted. -/
def cost : List Char → List Char → Nat
  | [], t => t.length
  | s, [] => s.length
  | c :: s, d :: t =>
    min (min (cost s (d :: t) + 1) (cost (c :: s) t + 1)) (cost s t + if c = d then 0 else 1)
termination_by s t => s.length + t.length

@[simp]
theorem cost_nil_left (t : List Char) : cost [] t = t.length := by
  rw [cost]

@[simp]
theorem cost_nil_right (s : List Char) : cost s [] = s.length := by
  cases s <;> simp [cost]

theorem cost_cons_cons (c d : Char) (s t : List Char) : cost (c :: s) (d :: t) =
    min (min (cost s (d :: t) + 1) (cost (c :: s) t + 1)) (cost s t + if c = d then 0 else 1) := by
  rw [cost]

theorem cost_self (s : List Char) : cost s s = 0 := by
  induction s with
  | nil => simp
  | cons c s ih => simp [cost_cons_cons, ih]

section Bounds

variable {a b : List Char}

theorem cost_cons_left_le (c : Char) (s t : List Char) : cost (c :: s) t ≤ cost s t + 1 := by
  cases t with
  | nil => simp
  | cons d t =>
    rw [cost_cons_cons]
    omega

theorem cost_cons_right_le (s : List Char) (d : Char) (t : List Char) : cost s (d :: t) ≤ cost s t + 1 := by
  cases s with
  | nil => simp
  | cons c s =>
    rw [cost_cons_cons]
    omega

theorem cost_cons_cons_le (c d : Char) (s t : List Char) : cost (c :: s) (d :: t) ≤ cost s t + 1 := by
  rw [cost_cons_cons]
  split <;> omega

theorem cost_le_cons_left (c : Char) (s t : List Char) : cost s t ≤ cost (c :: s) t + 1 := by
  induction t with
  | nil =>
    simp only [cost_nil_right, List.length_cons]
    omega
  | cons d t ih =>
    have hright := cost_cons_right_le s d t
    rw [cost_cons_cons]
    omega

theorem cost_replace_le (c d : Char) (s t : List Char) : cost (c :: s) t ≤ cost (d :: s) t + 1 := by
  induction t with
  | nil => simp
  | cons e t ih =>
    have hdelete := cost_cons_left_le c s (e :: t)
    have hinsert := cost_cons_right_le (c :: s) e t
    have hreplace := cost_cons_cons_le c e s t
    rw [cost_cons_cons d e]
    omega

/-- What costs at most one more than another text still does behind the same characters. -/
theorem cost_append_le (front : List Char) (h : ∀ t, cost a t ≤ cost b t + 1) (t : List Char) :
    cost (front ++ a) t ≤ cost (front ++ b) t + 1 := by
  induction front generalizing t with
  | nil => exact h t
  | cons c front ih =>
    rw [List.cons_append, List.cons_append]
    induction t with
    | nil =>
      have hnil := ih []
      simp only [cost_nil_right, List.length_cons] at hnil ⊢
      omega
    | cons d t iht =>
      have hdelete := ih (d :: t)
      have hboth := ih t
      rw [cost_cons_cons, cost_cons_cons]
      omega

/-- One edit saves a cost of one at most. -/
theorem Edit.cost_le (h : Edit a b) (t : List Char) : cost a t ≤ cost b t + 1 := by
  cases h with
  | insert front c back => exact cost_append_le front (cost_le_cons_left c back) t
  | delete front c back => exact cost_append_le front (cost_cons_left_le c back) t
  | replace front c d back => exact cost_append_le front (cost_replace_le c d back) t

theorem Edits.cost_le {n : Nat} (h : Edits n a b) : cost a b ≤ n := by
  induction h with
  | done s => rw [cost_self]
  | edit hstep _ ih => exact (hstep.cost_le _).trans (Nat.succ_le_succ ih)

theorem Edits.delete {n : Nat} (h : Edits n a b) (c : Char) : Edits (n + 1) (c :: a) b :=
  .edit (.delete [] c a) h

theorem Edits.insert {n : Nat} (h : Edits n a b) (d : Char) : Edits (n + 1) a (d :: b) :=
  h.trans (Edit.insert [] d b).edits

theorem Edits.keep {n : Nat} (h : Edits n a b) (c : Char) : Edits n (c :: a) (c :: b) :=
  h.map (Edit.cons c)

theorem Edits.replace {n : Nat} (h : Edits n a b) (c d : Char) : Edits (n + 1) (c :: a) (d :: b) :=
  .edit (.replace [] c d a) (h.keep d)

/-- Of two scripts of edits the shorter one can be taken. -/
theorem Edits.min {m n : Nat} (h : Edits m a b) (h' : Edits n a b) : Edits (Min.min m n) a b := by
  rcases Nat.le_total m n with hle | hle
  · rwa [Nat.min_eq_left hle]
  · rwa [Nat.min_eq_right hle]

/-- The cost is the number of some edits that turn the one text into the other. -/
theorem edits_cost (s t : List Char) : Edits (cost s t) s t := by
  fun_induction cost s t with
  | case1 t =>
    induction t with
    | nil => exact .done []
    | cons d t ih => exact ih.insert d
  | case2 s hs =>
    clear hs
    induction s with
    | nil => exact .done []
    | cons c s ih => exact ih.delete c
  | case3 c s d t hdelete hinsert hboth =>
    have heither : Edits (cost s t + if c = d then 0 else 1) (c :: s) (d :: t) := by
      split
      · subst d
        exact hboth.keep c
      · exact hboth.replace c d
    exact ((hdelete.delete c).min (hinsert.insert d)).min heither

theorem isLeast_cost (s t : List Char) : IsLeast {n | Edits n s t} (cost s t) :=
  ⟨edits_cost s t, fun _ h => h.cost_le⟩

end Bounds

/-- The costs of turning a text into those that another one grows to when characters come in front of it. -/
def costs (s : List Char) : (t : List Char) → List Char → List Nat
  | _, [] => []
  | t, b :: bs => cost s (b :: t) :: costs s (b :: t) bs

/-- A row of distances is filled with the costs for one more character. -/
theorem fillRow_costs (a : Char) (s t bs : List Char) :
    fillRow a (cost (a :: s) t) (cost s t) bs (costs s t bs) = costs (a :: s) t bs := by
  induction bs generalizing t with
  | nil => rfl
  | cons b bs ih =>
    rw [costs, costs, fillRow, ← cost_cons_cons, ih]

theorem nextRow_costs (bs : List Char) (s : List Char) (a : Char) :
    nextRow bs (cost s [] :: costs s [] bs) a = cost (a :: s) [] :: costs (a :: s) [] bs := by
  have hfirst : cost s [] + 1 = cost (a :: s) [] := by simp
  rw [nextRow, hfirst, fillRow_costs]

/-- The rows after some characters of the first text; the last one of them comes first in the costs. -/
theorem foldl_nextRow (bs s as : List Char) :
    as.foldl (nextRow bs) (cost s [] :: costs s [] bs) =
      cost (as.reverse ++ s) [] :: costs (as.reverse ++ s) [] bs := by
  induction as generalizing s with
  | nil => rfl
  | cons a as ih =>
    rw [List.foldl_cons, nextRow_costs, ih, List.reverse_cons, List.append_assoc, List.singleton_append]

theorem getLastD_costs (s t bs : List Char) :
    (cost s t :: costs s t bs).getLastD 0 = cost s (bs.reverse ++ t) := by
  induction bs generalizing t with
  | nil => rfl
  | cons b bs ih =>
    rw [List.reverse_cons, List.append_assoc, List.singleton_append, ← ih]
    rfl

/-- The first row counts the characters that are inserted. -/
theorem range_eq_costs (bs : List Char) : List.range (bs.length + 1) = cost [] [] :: costs [] [] bs := by
  have hrest (t : List Char) : costs [] t bs = List.range' (t.length + 1) bs.length := by
    induction bs generalizing t with
    | nil => rfl
    | cons b bs ih => rw [costs, ih, cost_nil_left, List.length_cons, List.length_cons, List.range'_succ]
  rw [hrest, cost_nil_left, List.range_eq_range', List.range'_succ]
  rfl

theorem distance_eq_cost (a b : List Char) : distance a b = cost a.reverse b.reverse := by
  rw [distance, range_eq_costs, foldl_nextRow, getLastD_costs, List.append_nil, List.append_nil]

/-- The distance of two texts is the least number of edits that turn the one into the other. -/
theorem isLeast_distance (a b : List Char) : IsLeast {n | Edits n a b} (distance a b) := by
  have hleast := isLeast_cost a.reverse b.reverse
  simp only [edits_reverse_iff] at hleast
  rwa [distance_eq_cost]

theorem distance_comm (a b : List Char) : distance a b = distance b a := by
  apply (isLeast_distance a b).unique
  have hleast := isLeast_distance b a
  exact ⟨hleast.1.symm, fun n h => hleast.2 (Edits.symm h)⟩

theorem distance_eq_zero_iff {a b : List Char} : distance a b = 0 ↔ a = b := by
  constructor
  · intro hzero
    have hedits : Edits (distance a b) a b := (isLeast_distance a b).1
    rw [hzero] at hedits
    cases hedits
    rfl
  · rintro rfl
    exact Nat.le_zero.mp ((isLeast_distance a a).2 (Edits.done a))

theorem distance_triangle (a b c : List Char) : distance a c ≤ distance a b + distance b c :=
  (isLeast_distance a c).2 ((isLeast_distance a b).1.trans (isLeast_distance b c).1)

end Soql.Text
