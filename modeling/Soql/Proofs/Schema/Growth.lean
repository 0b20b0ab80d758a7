import Soql.Proofs.Schema.Catalog

namespace Soql

open Text

namespace Table

variable {κ α : Type} [DecidableEq κ]

theorem mem_keys_put {key other : κ} {value : α} {table : List (κ × α)} :
    key ∈ (put other value table).map Prod.fst ↔ key = other ∨ key ∈ table.map Prod.fst := by
  induction table with
  | nil => simp [put]
  | cons entry rest ih =>
    rw [put]
    split
    case isTrue hkey => simp [← hkey]
    case isFalse =>
      rw [List.map_cons, List.map_cons, List.mem_cons, List.mem_cons, ih]
      exact or_left_comm

theorem put_append {key : κ} {table : List (κ × α)} (h : key ∉ table.map Prod.fst) (value : α)
    (rest : List (κ × α)) : put key value (table ++ rest) = table ++ put key value rest := by
  induction table with
  | nil => rfl
  | cons entry table ih =>
    rw [List.map_cons, List.mem_cons, not_or] at h
    rw [List.cons_append, put, if_neg (Ne.symm h.1), ih h.2]
    rfl

/-- Values put under new keys go behind what was there. -/
theorem putAll_new {entries table : List (κ × α)}
    (h : ∀ entry ∈ entries, entry.1 ∉ table.map Prod.fst) :
    ∃ added, putAll entries table = table ++ added ∧
      ∀ key, key ∈ added.map Prod.fst ↔ key ∈ entries.map Prod.fst := by
  -- The entries put so far stand behind the table, and only among them one can be put anew.
  have hall (rest : List (κ × α)) : ∃ added, putAll entries (table ++ rest) = table ++ added ∧
      ∀ key, key ∈ added.map Prod.fst ↔ key ∈ entries.map Prod.fst ∨ key ∈ rest.map Prod.fst := by
    induction entries generalizing rest with
    | nil => exact ⟨rest, rfl, by simp⟩
    | cons entry entries ih =>
      obtain ⟨hentry, hentries⟩ := List.forall_mem_cons.mp h
      obtain ⟨added, hadded, hkeys⟩ := ih hentries (put entry.1 entry.2 rest)
      refine ⟨added, ?_, fun key => ?_⟩
      · rw [← hadded, ← put_append hentry]
        rfl
      · rw [hkeys, mem_keys_put, List.map_cons, List.mem_cons]
        exact or_left_comm.trans or_assoc.symm
  obtain ⟨added, hadded, hkeys⟩ := hall []
  rw [List.append_nil] at hadded
  exact ⟨added, hadded, fun key => by simpa using hkeys key⟩

theorem find?_append (key : κ) (table rest : List (κ × α)) :
    find? key (table ++ rest) = (find? key table).or (find? key rest) := by
  induction table with
  | nil => rfl
  | cons entry table ih =>
    rw [List.cons_append, find?, find?]
    split
    · rfl
    · exact ih

end Table

namespace Catalog

/-- Of some names, those that a graph has an object for are described in the catalog. -/
def Describes (catalog : Catalog) (graph : SchemaGraph) (tenant : Tenant) (names : List String) : Prop :=
  ∀ name ∈ names, (graph.detail tenant name).isSome = true → (catalog.get? name).isSome = true

def Grows (graph : SchemaGraph) (tenant : Tenant) (catalog grown : Catalog) : Prop :=
  ∃ added, grown = catalog ++ added ∧
    ∀ key ∈ names added, catalog.get? key = none ∧ (graph.detail tenant key).isSome = true

section Growth

variable {graph : SchemaGraph} {tenant : Tenant} {catalog grown : Catalog}

/-- What was found under a name is found still: no added key is the name in another letter case. -/
theorem Grows.get?_of_some (h : Grows graph tenant catalog grown) {name : String} {o : SObject}
    (ho : catalog.get? name = some o) : grown.get? name = some o := by
  obtain ⟨added, rfl, hadded⟩ := h
  have hnew : Table.find? name added = none := by
    by_contra hfound
    have hkey := Table.find?_isSome.mp (Option.isSome_iff_ne_none.mpr hfound)
    rw [(hadded name hkey).1] at ho
    cases ho
  unfold get? at ho ⊢
  rw [Table.find?_append, hnew, Option.or_none]
  -- Without an entry of just this name the first one in another letter case counts, and it was there before.
  cases hexact : Table.find? name catalog with
  | some found =>
    rw [hexact] at ho
    exact ho
  | none =>
    rw [hexact] at ho
    obtain ⟨entry, hentry, rfl⟩ := Option.map_eq_some_iff.mp ho
    simp only [List.find?_append, hentry, Option.some_or, Option.map_some]

/-- What the graph has no object for stays away. -/
theorem Grows.get?_of_none (h : Grows graph tenant catalog grown) {name : String}
    (hname : catalog.get? name = none) (hgraph : graph.detail tenant name = none) :
    grown.get? name = none := by
  obtain ⟨added, rfl, hadded⟩ := h
  by_contra hfound
  obtain ⟨key, hkey, hsame⟩ := get?_isSome.mp (Option.isSome_iff_ne_none.mpr hfound)
  rw [names, List.map_append, List.mem_append] at hkey
  rcases hkey with hkey | hkey
  · have hheld := get?_isSome.mpr ⟨key, hkey, hsame⟩
    rw [hname] at hheld
    cases hheld
  · have hdetail : (graph.detail tenant name).isSome = true :=
      (get?_isSome_congr hsame).symm.trans (hadded key hkey).2
    rw [hgraph] at hdetail
    cases hdetail

/-- A name that is described, or that the graph has no object for, is looked up as before. -/
theorem Grows.get?_eq (h : Grows graph tenant catalog grown) {name : String}
    (hname : (graph.detail tenant name).isSome = true → (catalog.get? name).isSome = true) :
    grown.get? name = catalog.get? name := by
  cases hheld : catalog.get? name with
  | some o => exact h.get?_of_some hheld
  | none =>
    rw [hheld] at hname
    apply h.get?_of_none hheld
    cases hdetail : graph.detail tenant name with
    | none => rfl
    | some o => exact absurd (hname (by rw [hdetail]; rfl)) (by simp)

theorem Grows.refl : Grows graph tenant catalog catalog :=
  ⟨[], (List.append_nil catalog).symm, nofun⟩

theorem Grows.trans {further : Catalog} (h : Grows graph tenant catalog grown)
    (hfurther : Grows graph tenant grown further) : Grows graph tenant catalog further := by
  have hkept := @h.get?_of_some
  obtain ⟨added, rfl, hadded⟩ := h
  obtain ⟨more, rfl, hmore⟩ := hfurther
  refine ⟨added ++ more, List.append_assoc .., fun key hkey => ?_⟩
  rw [names, List.map_append, List.mem_append] at hkey
  rcases hkey with hkey | hkey
  · exact hadded key hkey
  · refine ⟨?_, (hmore key hkey).2⟩
    cases hheld : catalog.get? key with
    | none => rfl
    | some o => exact absurd (hkept hheld) (by rw [(hmore key hkey).1]; exact nofun)

end Growth

end Catalog

end Soql
