import Mathlib.Data.List.Nodup
import Soql.Schema.Graph

namespace Soql

open Text

/-- What is left when repetitions are taken away has none. -/
theorem nodup_eraseDups {α : Type} [DecidableEq α] (l : List α) : l.eraseDups.Nodup := by
  cases l with
  | nil => exact List.nodup_nil
  | cons a rest =>
    rw [List.eraseDups_cons, List.nodup_cons, List.mem_eraseDups]
    exact ⟨by simp, nodup_eraseDups (rest.filter fun b => !b == a)⟩
termination_by l.length
decreasing_by exact Nat.lt_succ_of_le (List.length_filter_le _ _)

/-- Where nothing is repeated there is nothing to take away. -/
theorem eraseDups_of_nodup {α : Type} [DecidableEq α] {l : List α} (h : l.Nodup) : l.eraseDups = l := by
  induction l with
  | nil => rfl
  | cons a l ih =>
    obtain ⟨ha, hl⟩ := List.nodup_cons.mp h
    rw [List.eraseDups_cons, List.filter_eq_self.mpr, ih hl]
    intro b hb
    have hne : b ≠ a := fun heq => ha (heq ▸ hb)
    simpa using hne

namespace Table

variable {κ α : Type} [DecidableEq κ]

/-- Of the values put under a key the last one is found. -/
theorem find?_putAll (key : κ) (entries table : List (κ × α)) :
    find? key (putAll entries table) =
      ((entries.reverse.find? (·.1 = key)).map Prod.snd).or (find? key table) := by
  induction entries generalizing table with
  | nil => rfl
  | cons entry entries ih =>
    obtain ⟨other, value⟩ := entry
    have hrest := ih (put other value table)
    rw [putAll] at hrest ⊢
    rw [List.foldl_cons, hrest, List.reverse_cons, List.find?_append]
    by_cases hother : other = key
    · subst hother
      rw [find?_put_self]
      cases entries.reverse.find? (·.1 = other) <;> simp
    · rw [find?_put_of_ne (Ne.symm hother)]
      cases entries.reverse.find? (·.1 = key) <;> simp [hother]

theorem mem_of_find?_putAll {key : κ} {value : α} {entries : List (κ × α)}
    (h : find? key (putAll entries []) = some value) : (key, value) ∈ entries := by
  rw [find?_putAll, find?, Option.or_none, Option.map_eq_some_iff] at h
  obtain ⟨⟨other, value⟩, hentry, rfl⟩ := h
  have hkey : other = key := by simpa using List.find?_some hentry
  rw [← hkey]
  exact List.mem_reverse.mp (List.mem_of_find?_eq_some hentry)

/-- Where no key is put twice, each value is found. -/
theorem find?_putAll_of_mem {key : κ} {value : α} {entries : List (κ × α)}
    (hnodup : (entries.map Prod.fst).Nodup) (h : (key, value) ∈ entries) :
    find? key (putAll entries []) = some value := by
  have hfound : (entries.reverse.find? (·.1 = key)).isSome = true := by
    rw [List.find?_isSome]
    exact ⟨_, List.mem_reverse.mpr h, by simp⟩
  obtain ⟨entry, hentry⟩ := Option.isSome_iff_exists.mp hfound
  have hmem := List.mem_reverse.mp (List.mem_of_find?_eq_some hentry)
  have hkey : entry.1 = key := by simpa using List.find?_some hentry
  have hsame : entry = (key, value) := List.inj_on_of_nodup_map hnodup hmem h hkey
  rw [find?_putAll, hentry, hsame]
  rfl

/-- Something is found under the keys of a table, and under nothing else. -/
theorem find?_isSome {key : κ} {table : List (κ × α)} :
    (find? key table).isSome = true ↔ key ∈ table.map Prod.fst := by
  induction table with
  | nil => simp [find?]
  | cons entry table ih =>
    rw [find?, List.map_cons, List.mem_cons]
    split
    case isTrue hkey => simp [hkey]
    case isFalse hkey => simp [ih, Ne.symm hkey]

/-- The first entry whose key is of a kind is found under its key. -/
theorem find?_of_find? {p : κ → Bool} {table : List (κ × α)} {entry : κ × α}
    (h : table.find? (fun e => p e.1) = some entry) : find? entry.1 table = some entry.2 := by
  induction table with
  | nil => cases h
  | cons first table ih =>
    rw [List.find?_cons] at h
    cases hfirst : p first.1 with
    | true =>
      rw [hfirst] at h
      obtain rfl := Option.some.inj h
      rw [find?, if_pos rfl]
    | false =>
      rw [hfirst] at h
      have hne : first.1 ≠ entry.1 := by
        intro hkey
        have hkind : p entry.1 = true := List.find?_some (p := fun e : κ × α => p e.1) h
        rw [← hkey, hfirst] at hkind
        cases hkind
      rw [find?, if_neg hne, ih h]

end Table

namespace Catalog

/-- Each object stands under its own name. -/
def Keyed (catalog : Catalog) : Prop :=
  ∀ entry ∈ catalog, entry.2.name = entry.1

/-- What is found under a name stands under a key that is the name in some letter case. -/
theorem mem_of_get? {catalog : Catalog} {name : String} {o : SObject} (h : catalog.get? name = some o) :
    ∃ key, (key, o) ∈ catalog ∧ lower key = lower name := by
  unfold get? at h
  split at h
  case h_1 found hfound =>
    cases h
    exact ⟨name, Table.mem_of_find? hfound, rfl⟩
  case h_2 =>
    obtain ⟨⟨key, found⟩, hfound, rfl⟩ := Option.map_eq_some_iff.mp h
    have hsame := List.find?_some hfound
    exact ⟨key, List.mem_of_find?_eq_some hfound, beq_iff_eq.mp hsame⟩

/-- An object is found under a name just if there is a key that is the name in some letter case. -/
theorem get?_isSome {catalog : Catalog} {name : String} :
    (catalog.get? name).isSome = true ↔ ∃ key ∈ catalog.names, lower key = lower name := by
  constructor
  · intro h
    obtain ⟨o, ho⟩ := Option.isSome_iff_exists.mp h
    obtain ⟨key, hentry, hsame⟩ := mem_of_get? ho
    exact ⟨key, List.mem_map_of_mem hentry, hsame⟩
  · rintro ⟨key, hkey, hsame⟩
    obtain ⟨entry, hentry, rfl⟩ := List.mem_map.mp hkey
    rw [get?]
    split
    · rfl
    · rw [Option.isSome_map, List.find?_isSome]
      exact ⟨entry, hentry, beq_iff_eq.mpr hsame⟩

theorem get?_isSome_congr {catalog : Catalog} {name other : String} (h : lower name = lower other) :
    (catalog.get? name).isSome = (catalog.get? other).isSome := by
  rw [Bool.eq_iff_iff, get?_isSome, get?_isSome, h]

/-- An object that is found in some letter case of its name is found by its name. -/
theorem Keyed.get?_name {catalog : Catalog} (h : catalog.Keyed) {name : String} {o : SObject}
    (ho : catalog.get? name = some o) : catalog.get? o.name = some o := by
  have hheld : Table.find? o.name catalog = some o := by
    unfold get? at ho
    split at ho
    case h_1 found hfound =>
      obtain rfl := Option.some.inj ho
      rw [h _ (Table.mem_of_find? hfound), hfound]
    case h_2 =>
      obtain ⟨entry, hentry, rfl⟩ := Option.map_eq_some_iff.mp ho
      rw [h entry (List.mem_of_find?_eq_some hentry)]
      exact Table.find?_of_find? (p := (sameLower · name)) hentry
  rw [get?, hheld]

theorem Keyed.put {catalog : Catalog} (h : catalog.Keyed) (o : SObject) :
    Keyed (Table.put o.name o catalog) := by
  induction catalog with
  | nil =>
    intro entry hentry
    obtain rfl := List.mem_singleton.mp hentry
    rfl
  | cons first rest ih =>
    obtain ⟨hfirst, hrest⟩ := List.forall_mem_cons.mp h
    rw [Table.put]
    split
    · exact List.forall_mem_cons.mpr ⟨rfl, hrest⟩
    · exact List.forall_mem_cons.mpr ⟨hfirst, ih hrest⟩

theorem keyed_ofObjects (objects : List SObject) : Keyed (ofObjects objects) := by
  have hall (catalog : Catalog) (h : catalog.Keyed) :
      Keyed (Table.putAll (objects.map fun o => (o.name, o)) catalog) := by
    induction objects generalizing catalog with
    | nil => exact h
    | cons o objects ih => exact ih _ (h.put o)
  exact hall [] (by simp [Keyed])

/-- What is found bears the name. -/
theorem name_of_find? {objects : List SObject} {name : String} {o : SObject}
    (h : Table.find? name (ofObjects objects) = some o) : o ∈ objects ∧ o.name = name := by
  obtain ⟨found, hmem, hentry⟩ := List.mem_map.mp (Table.mem_of_find?_putAll h)
  cases hentry
  exact ⟨hmem, rfl⟩

/-- Objects of different names are all found. -/
theorem find?_ofObjects {objects : List SObject} (hnodup : (objects.map (·.name)).Nodup) {o : SObject}
    (h : o ∈ objects) : Table.find? o.name (ofObjects objects) = some o := by
  have hkeys : ((objects.map fun o => (o.name, o)).map Prod.fst).Nodup := by
    rw [List.map_map]
    exact hnodup
  exact Table.find?_putAll_of_mem hkeys (List.mem_map_of_mem h)

/-- The objects that are found under some names are at most as many, and have these names. -/
theorem names_sublist (objects : List SObject) (names : List String) :
    ((names.filterMap fun n => Table.find? n (ofObjects objects)).map (·.name)).Sublist names := by
  induction names with
  | nil => exact .slnil
  | cons name names ih =>
    rw [List.filterMap_cons]
    cases hname : Table.find? name (ofObjects objects) with
    | none => exact ih.cons name
    | some o =>
      rw [List.map_cons, (name_of_find? hname).2]
      exact ih.cons_cons name

end Catalog

namespace SchemaGraph

/-- Each object of each tenant stands under its own name. -/
def Keyed (graph : SchemaGraph) : Prop :=
  ∀ tenant, (graph.objects tenant).Keyed

theorem keyed_empty : Keyed [] :=
  fun _ _ h => by cases h

theorem schema_put_self (graph : SchemaGraph) (tenant : Tenant) (held : Holdings) :
    schema (Table.put tenant held graph) tenant = held := by
  rw [schema, Table.find?_put_self]
  rfl

theorem schema_put_of_ne {tenant other : Tenant} (h : other ≠ tenant) (graph : SchemaGraph)
    (held : Holdings) : schema (Table.put tenant held graph) other = graph.schema other := by
  rw [schema, Table.find?_put_of_ne h]
  rfl

theorem Keyed.put {graph : SchemaGraph} (h : graph.Keyed) (tenant : Tenant) {held : Holdings}
    (hheld : held.objects.Keyed) : Keyed (Table.put tenant held graph) := by
  intro other
  rw [objects]
  by_cases hother : other = tenant
  · rw [hother, schema_put_self]
    exact hheld
  · rw [schema_put_of_ne hother]
    exact h other

theorem Keyed.load {graph : SchemaGraph} (h : graph.Keyed) (tenant : Tenant) (listed : List SObject)
    (held : Holdings) : (graph.load tenant { held with objects := .ofObjects listed }).Keyed :=
  h.put tenant (Catalog.keyed_ofObjects listed)

theorem Keyed.loadObject {graph : SchemaGraph} (h : graph.Keyed) (tenant : Tenant) (o : SObject) :
    (graph.loadObject tenant o).Keyed :=
  h.put tenant ((h tenant).put o)

variable {graph : SchemaGraph} (h : graph.Keyed)

include h

/-- An object that is asked for by a listed name is there, and bears that name. -/
theorem Keyed.detail {tenant : Tenant} {name : String}
    (hname : name ∈ (graph.summaries tenant).map (·.name)) :
    ∃ o, graph.detail tenant name = some o ∧ o.name = name := by
  have hkeys : ∃ entry ∈ graph.objects tenant, entry.1 = name := by
    rw [summaries, List.map_map] at hname
    obtain ⟨entry, hentry, hsummary⟩ := List.mem_map.mp hname
    exact ⟨entry, hentry, (h tenant entry hentry).symm.trans hsummary⟩
  have hfound : (Table.find? name (graph.objects tenant)).isSome = true := by
    obtain ⟨entry, hentry, rfl⟩ := hkeys
    exact Table.find?_isSome.mpr (List.mem_map_of_mem hentry)
  obtain ⟨o, ho⟩ := Option.isSome_iff_exists.mp hfound
  refine ⟨o, ?_, h tenant _ (Table.mem_of_find? ho)⟩
  rw [SchemaGraph.detail, Catalog.get?, ho]

/-- The objects that are asked for by listed names bear these names. -/
theorem Keyed.details {tenant : Tenant} {names : List String}
    (hnames : ∀ name ∈ names, name ∈ (graph.summaries tenant).map (·.name)) :
    (names.filterMap (graph.detail tenant)).map (·.name) = names := by
  induction names with
  | nil => rfl
  | cons name names ih =>
    obtain ⟨hname, hnames⟩ := List.forall_mem_cons.mp hnames
    obtain ⟨o, ho, hown⟩ := h.detail hname
    rw [List.filterMap_cons_some ho, List.map_cons, hown, ih hnames]

end SchemaGraph

end Soql
