namespace Soql.Table

variable {κ α : Type} [DecidableEq κ]

/-- Puts a value under a key: a key that is there keeps its place. -/
def put (key : κ) (value : α) : List (κ × α) → List (κ × α)
  | [] => [(key, value)]
  | (other, old) :: rest =>
    if other = key then (key, value) :: rest else (other, old) :: put key value rest

def putAll (entries table : List (κ × α)) : List (κ × α) :=
  entries.foldl (fun table (key, value) => put key value table) table

def find? (key : κ) : List (κ × α) → Option α
  | [] => none
  | (other, value) :: rest => if other = key then some value else find? key rest

def erase (key : κ) (table : List (κ × α)) : List (κ × α) :=
  table.filter fun (other, _) => decide (other ≠ key)

/-- What is found under a key stands in the table with it. -/
theorem mem_of_find? {key : κ} {value : α} {table : List (κ × α)} (h : find? key table = some value) :
    (key, value) ∈ table := by
  induction table with
  | nil => cases h
  | cons entry rest ih =>
    obtain ⟨other, old⟩ := entry
    by_cases hk : other = key
    · simp_all [find?]
    · simp only [find?, hk, if_false] at h
      exact List.mem_cons_of_mem _ (ih h)

/-- What was put is found under its key. -/
theorem find?_put_self (key : κ) (value : α) (table : List (κ × α)) :
    find? key (put key value table) = some value := by
  induction table with
  | nil => simp [put, find?]
  | cons entry rest ih =>
    obtain ⟨other, old⟩ := entry
    by_cases h : other = key
    · simp [put, find?, h]
    · simp [put, find?, h, ih]

/-- Putting changes nothing under another key. -/
theorem find?_put_of_ne {key other : κ} (h : other ≠ key) (value : α) (table : List (κ × α)) :
    find? other (put key value table) = find? other table := by
  induction table with
  | nil => simp [put, find?, h.symm]
  | cons entry rest ih =>
    obtain ⟨held, old⟩ := entry
    by_cases hk : held = key
    · subst hk
      simp [put, find?, h.symm]
    · by_cases ho : held = other
      · subst ho
        simp [put, find?, hk]
      · simp [put, find?, hk, ho, ih]

/-- What was erased is not found. -/
theorem find?_erase_self (key : κ) (table : List (κ × α)) :
    find? key (erase key table) = none := by
  induction table with
  | nil => rfl
  | cons entry rest ih =>
    obtain ⟨other, old⟩ := entry
    by_cases h : other = key <;> simp_all [erase, find?]

/-- Erasing changes nothing under another key. -/
theorem find?_erase_of_ne {key other : κ} (h : other ≠ key) (table : List (κ × α)) :
    find? other (erase key table) = find? other table := by
  induction table with
  | nil => rfl
  | cons entry rest ih =>
    obtain ⟨held, old⟩ := entry
    by_cases hk : held = key
    · subst hk
      simp_all [erase, find?, h.symm]
    · by_cases ho : held = other <;> simp_all [erase, find?]

end Soql.Table
