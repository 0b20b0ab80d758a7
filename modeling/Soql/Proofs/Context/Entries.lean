import Mathlib.Data.List.Nodup
import Soql.Context.Cache

namespace Soql.Cache

variable {τ α : Type}

theorem key_of_without {key : String} {es : List (Kept τ α)} {e : Kept τ α} (h : e ∈ without key es) :
    e.key ≠ key := by
  have hkept := (List.mem_filter.mp h).2
  simpa using hkept

/-- An entry in place of those under its key comes last, and its key is still there only once. -/
theorem nodup_without_append {es : List (Kept τ α)} (h : (es.map (·.key)).Nodup) {e : Kept τ α} {key : String}
    (hkey : e.key = key) : ((without key es ++ [e]).map (·.key)).Nodup := by
  rw [List.map_append, List.map_singleton]
  apply List.nodup_append.mpr
  refine ⟨h.sublist (List.filter_sublist.map _), List.nodup_singleton _, ?_⟩
  intro a ha b hb heq
  obtain ⟨f, hf, rfl⟩ := List.mem_map.mp ha
  rw [List.mem_singleton.mp hb, hkey] at heq
  exact key_of_without hf heq

theorem entries_put_self {policy : CachePolicy τ} {now : τ} {request : String} {content : α} {tenant : Tenant}
    {cache : Cache τ α} : (cache.put policy now request content tenant).entries tenant =
      trimTo policy.capacity (without (plainRequest request) (cache.entries tenant) ++
        [⟨plainRequest request, keptTerms request, content, now⟩]) := by
  simp [put, entries, Table.find?_put_self]

theorem entries_put_of_ne {policy : CachePolicy τ} {now : τ} {request : String} {content : α}
    {tenant other : Tenant} (h : other ≠ tenant) {cache : Cache τ α} :
    (cache.put policy now request content tenant).entries other = cache.entries other := by
  simp [put, entries, Table.find?_put_of_ne h]

/-- Putting leaves no more entries than there may be. -/
theorem size_put_le {policy : CachePolicy τ} {cache : Cache τ α} {now : τ} {request : String} {content : α} {tenant : Tenant}
    (hcap : 0 ≤ policy.capacity) :
    ((cache.put policy now request content tenant).size tenant : Int) ≤ policy.capacity := by
  unfold size
  rw [entries_put_self, trimTo, List.length_drop]
  omega

theorem mem_trimTo_last {capacity : Int} (hcap : 1 ≤ capacity) (es : List (Kept τ α)) (e : Kept τ α) :
    e ∈ trimTo capacity (es ++ [e]) := by
  unfold trimTo
  have hle : (es ++ [e]).length - capacity.toNat ≤ es.length := by
    rw [List.length_append, List.length_singleton]
    omega
  rw [List.drop_append_of_le_length hle]
  simp

theorem entries_invalidate_self {tenant : Tenant} {cache : Cache τ α} :
    (cache.invalidate tenant).entries tenant = [] := by
  simp [invalidate, entries, Table.find?_erase_self]

theorem entries_invalidate_of_ne {tenant other : Tenant} (h : other ≠ tenant) {cache : Cache τ α} :
    (cache.invalidate tenant).entries other = cache.entries other := by
  simp [invalidate, entries, Table.find?_erase_of_ne h]

/-- An entry that is found has the key of the request or enough of its terms. -/
theorem matching_sound {policy : CachePolicy τ} {request : String} {es : List (Kept τ α)} {e : Kept τ α}
    (h : matching policy request es = some e) :
    e ∈ es ∧ (e.key = plainRequest request ∨ policy.likeness ≤ jaccard (keptTerms request) e.terms) := by
  simp only [matching] at h
  cases hkey : es.find? (·.key == plainRequest request) with
  | some f =>
    rw [hkey] at h
    obtain rfl : f = e := by simpa using h
    have hfound := List.find?_some hkey
    exact ⟨List.mem_of_find?_eq_some hkey, Or.inl (by simpa using hfound)⟩
  | none =>
    rw [hkey] at h
    simp only [Option.orElse_eq_or, Option.none_or] at h
    split at h
    · cases h
    · have hfound := List.find?_some h
      have hmem := List.mem_of_find?_eq_some h
      exact ⟨List.mem_reverse.mp hmem, Or.inr (by simpa using hfound)⟩

/-- Where no two entries have one key, the entry under the key of the request is the one found. -/
theorem matching_of_key {policy : CachePolicy τ} {request : String} {es : List (Kept τ α)} {e : Kept τ α}
    (honce : (es.map (·.key)).Nodup) (he : e ∈ es) (hkey : e.key = plainRequest request) :
    matching policy request es = some e := by
  have hfind : es.find? (·.key == plainRequest request) = some e := by
    induction es with
    | nil => cases he
    | cons f es ih =>
      rw [List.map_cons, List.nodup_cons] at honce
      rcases List.mem_cons.mp he with rfl | he
      · simp [hkey]
      · -- An entry in front has another key.
        have hne : f.key ≠ plainRequest request := by
          intro hf
          apply honce.1
          rw [hf, ← hkey]
          exact List.mem_map_of_mem he
        rw [List.find?_cons_of_neg (by simpa using hne)]
        exact ih honce.2 he
  simp [matching, hfind]

/-- All but the entry put now was there before. -/
theorem mem_entries_put {policy : CachePolicy τ} {now : τ} {request : String} {content : α} {tenant : Tenant}
    {cache : Cache τ α} {e : Kept τ α} (he : e ∈ (cache.put policy now request content tenant).entries tenant) :
    e ∈ cache.entries tenant ∨ e.content = content := by
  rw [entries_put_self] at he
  rcases List.mem_append.mp (List.mem_of_mem_drop he) with he | he
  · exact .inl (List.mem_filter.mp he).1
  · rw [List.mem_singleton.mp he]
    exact .inr rfl

section Age

variable [Sub τ] [LT τ] [DecidableLT τ] (policy : CachePolicy τ)

def fresh (now : τ) (es : List (Kept τ α)) : List (Kept τ α) :=
  es.filter fun e => !decide (policy.lifetime < now - e.created)

variable {policy}

theorem mem_fresh {now : τ} {es : List (Kept τ α)} {e : Kept τ α} :
    e ∈ fresh policy now es ↔ e ∈ es ∧ ¬policy.lifetime < now - e.created := by
  simp [fresh]

theorem get_eq (now : τ) (request : String) (tenant : Tenant) (cache : Cache τ α) :
    cache.get policy now request tenant =
      match matching policy request (fresh policy now (cache.entries tenant)) with
      | some e =>
        (some e.content, Table.put tenant (without e.key (fresh policy now (cache.entries tenant)) ++ [e]) cache)
      | none => (none, if (cache.entries tenant).isEmpty then cache
        else Table.put tenant (fresh policy now (cache.entries tenant)) cache) :=
  rfl

theorem get_fst {now : τ} {request : String} {tenant : Tenant} {cache : Cache τ α} :
    (cache.get policy now request tenant).1 =
      (matching policy request (fresh policy now (cache.entries tenant))).map (·.content) := by
  rw [get_eq]
  cases matching policy request (fresh policy now (cache.entries tenant)) <;> rfl

theorem entries_get_self {now : τ} {request : String} {tenant : Tenant} {cache : Cache τ α} :
    (cache.get policy now request tenant).2.entries tenant =
      match matching policy request (fresh policy now (cache.entries tenant)) with
      | some e => without e.key (fresh policy now (cache.entries tenant)) ++ [e]
      | none => fresh policy now (cache.entries tenant) := by
  have hput (es : List (Kept τ α)) : entries (Table.put tenant es cache) tenant = es := by
    simp [entries, Table.find?_put_self]
  rw [get_eq]
  cases matching policy request (fresh policy now (cache.entries tenant)) with
  | some e => exact hput _
  | none =>
    by_cases hempty : (cache.entries tenant).isEmpty = true
    -- A tenant without entries stays without.
    · simp only [hempty, if_true, fresh]
      rw [List.isEmpty_iff.mp hempty, List.filter_nil]
    · simp only [hempty]
      exact hput _

theorem entries_get_of_ne {now : τ} {request : String} {tenant other : Tenant} (h : other ≠ tenant)
    {cache : Cache τ α} : (cache.get policy now request tenant).2.entries other = cache.entries other := by
  have hput (es : List (Kept τ α)) : entries (Table.put tenant es cache) other = cache.entries other := by
    simp [entries, Table.find?_put_of_ne h]
  rw [get_eq]
  cases matching policy request (fresh policy now (cache.entries tenant)) with
  | some e => exact hput _
  | none =>
    by_cases hempty : (cache.entries tenant).isEmpty = true
    · simp only [hempty, if_true]
    · simp only [hempty]
      exact hput _

/-- What a look-up leaves of a tenant's entries was there before. -/
theorem mem_entries_get {now : τ} {request : String} {tenant : Tenant} {cache : Cache τ α} {e : Kept τ α}
    (he : e ∈ (cache.get policy now request tenant).2.entries tenant) : e ∈ cache.entries tenant := by
  rw [entries_get_self] at he
  cases hm : matching policy request (fresh policy now (cache.entries tenant)) with
  | none =>
    rw [hm] at he
    exact (mem_fresh.mp he).1
  | some found =>
    rw [hm] at he
    rcases List.mem_append.mp he with he | he
    · exact (mem_fresh.mp (List.mem_filter.mp he).1).1
    · rw [List.mem_singleton.mp he]
      exact (mem_fresh.mp (matching_sound hm).1).1

/-- What is found is the content of an entry that the tenant has. -/
theorem exists_entry_of_get {now : τ} {request : String} {tenant : Tenant} {cache : Cache τ α} {content : α}
    (h : (cache.get policy now request tenant).1 = some content) :
    ∃ e ∈ cache.entries tenant, e.content = content := by
  rw [get_fst, Option.map_eq_some_iff] at h
  obtain ⟨e, hmatch, hcontent⟩ := h
  exact ⟨e, (mem_fresh.mp (matching_sound hmatch).1).1, hcontent⟩

end Age

def Every (P : Tenant → α → Prop) (cache : Cache τ α) : Prop :=
  ∀ tenant, ∀ e ∈ cache.entries tenant, P tenant e.content

section Every

variable {P : Tenant → α → Prop} {policy : CachePolicy τ} {cache : Cache τ α} {tenant : Tenant}

theorem every_nil : Every P ([] : Cache τ α) :=
  fun _ _ he => by cases he

theorem Every.put (h : Every P cache) (now : τ) (request : String) {content : α} (hcontent : P tenant content) :
    Every P (cache.put policy now request content tenant) := by
  intro other e he
  by_cases hother : other = tenant
  · subst hother
    rcases mem_entries_put he with he | he
    · exact h other e he
    · rw [he]
      exact hcontent
  · rw [entries_put_of_ne hother] at he
    exact h other e he

theorem Every.invalidate (h : Every P cache) (tenant : Tenant) : Every P (cache.invalidate tenant) := by
  intro other e he
  by_cases hother : other = tenant
  · subst hother
    rw [entries_invalidate_self] at he
    cases he
  · rw [entries_invalidate_of_ne hother] at he
    exact h other e he

theorem Every.get [Sub τ] [LT τ] [DecidableLT τ] (h : Every P cache) (now : τ) (request : String)
    (tenant : Tenant) : Every P (cache.get policy now request tenant).2 := by
  intro other e he
  by_cases hother : other = tenant
  · subst hother
    exact h other e (mem_entries_get he)
  · rw [entries_get_of_ne hother] at he
    exact h other e he

end Every

end Soql.Cache
