import Soql.Validation.Message

namespace Soql.Message

theorem errors_append (as bs : List Message) :
    errors (as ++ bs) = errors as ++ errors bs :=
  List.filter_append ..

theorem errors_map_nil {α : Type} {l : List α} {f : α → Message} (hf : ∀ a, (f a).isError = true) :
    errors (l.map f) = [] ↔ l = [] := by
  unfold errors
  rw [List.filter_eq_nil_iff]
  constructor
  · intro h
    cases l with
    | nil => rfl
    | cons a l => exact absurd (hf a) (h (f a) (by simp))
  · rintro rfl
    simp

theorem errors_flatMap_nil {α : Type} {l : List α} {f : α → List Message} :
    errors (l.flatMap f) = [] ↔ ∀ a ∈ l, errors (f a) = [] := by
  unfold errors
  rw [List.filter_flatMap, List.flatMap_eq_nil_iff]

theorem errors_ne_nil {m : Message} (hm : m.isError = true) {messages : List Message}
    (h : m ∈ messages) : errors messages ≠ [] :=
  List.ne_nil_of_mem (List.mem_filter.mpr ⟨h, hm⟩)

def OnlyErrors (messages : List Message) : Prop :=
  ∀ m ∈ messages, m.isError = true

theorem onlyErrors_nil : OnlyErrors [] :=
  fun m hm => by cases hm

theorem onlyErrors_append {first second : List Message} (h : OnlyErrors first)
    (h' : OnlyErrors second) : OnlyErrors (first ++ second) := by
  intro m hm
  rcases List.mem_append.mp hm with hm | hm
  · exact h m hm
  · exact h' m hm

theorem onlyErrors_cons {m : Message} {messages : List Message} (hm : m.isError = true)
    (h : OnlyErrors messages) : OnlyErrors (m :: messages) :=
  List.forall_mem_cons.mpr ⟨hm, h⟩

theorem onlyErrors_singleton {m : Message} (hm : m.isError = true) : OnlyErrors [m] :=
  onlyErrors_cons hm onlyErrors_nil

theorem onlyErrors_map {α : Type} {items : List α} {f : α → Message} (h : ∀ a, (f a).isError = true) :
    OnlyErrors (items.map f) := by
  intro m hm
  obtain ⟨a, -, rfl⟩ := List.mem_map.mp hm
  exact h a

theorem onlyErrors_filterMap {α : Type} {items : List α} {f : α → Option Message}
    (h : ∀ a, ∀ m ∈ f a, m.isError = true) : OnlyErrors (items.filterMap f) := by
  intro m hm
  obtain ⟨a, -, ha⟩ := List.mem_filterMap.mp hm
  exact h a m ha

theorem onlyErrors_flatMap {α : Type} {items : List α} {f : α → List Message}
    (h : ∀ a, OnlyErrors (f a)) : OnlyErrors (items.flatMap f) := by
  intro m hm
  obtain ⟨a, -, hm⟩ := List.mem_flatMap.mp hm
  exact h a m hm

end Soql.Message
