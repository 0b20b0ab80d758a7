import Mathlib.Data.List.Dedup
import Mathlib.Data.List.DropRight
import Soql.Proofs.Context.CacheHistory

namespace Soql.Cache

variable {τ α : Type}

def touch (key : String) (keys : List String) : List String :=
  keys.filter (· != key) ++ [key]

/-- Keys in the order of their last occurrences, after one more of them. -/
theorem dedup_snoc (keys : List String) (key : String) :
    (keys ++ [key]).dedup = touch key keys.dedup := by
  induction keys with
  | nil => rfl
  | cons first keys ih =>
    rw [List.cons_append]
    by_cases hagain : first ∈ keys
    · -- An earlier occurrence of the first key counts in neither list.
      rw [List.dedup_cons_of_mem (List.mem_append_left _ hagain), List.dedup_cons_of_mem hagain, ih]
    by_cases hkey : first = key
    · subst hkey
      rw [List.dedup_cons_of_mem (by simp), ih, List.dedup_cons_of_notMem hagain]
      simp [touch]
    · rw [List.dedup_cons_of_notMem (by simp [hagain, hkey]), ih, List.dedup_cons_of_notMem hagain]
      simp [touch, hkey]

theorem length_touch {keys : List String} (hnodup : keys.Nodup) (key : String) :
    (touch key keys).length = if key ∈ keys then keys.length else keys.length + 1 := by
  rw [touch, ← hnodup.erase_eq_filter, List.length_append, List.length_singleton, List.length_erase]
  split
  · rename_i hkey
    have hpos : 0 < keys.length := List.length_pos_of_mem hkey
    omega
  · rfl

/-- The last keys after a touch are told by the last keys before it. -/
theorem rtake_touch {keys : List String} (hnodup : keys.Nodup) (key : String) (n : Nat) :
    (touch key keys).rtake n = (touch key (keys.rtake n)).rtake n := by
  by_cases hshort : keys.length ≤ n
  · have hall : keys.rtake n = keys := by
      unfold List.rtake
      rw [Nat.sub_eq_zero_of_le hshort, List.drop_zero]
    rw [hall]
  -- Otherwise there are as many last keys as may be, of which a touch takes away none but its own.
  have hlast : (keys.rtake n).length = n := by
    unfold List.rtake
    rw [List.length_drop]
    omega
  have hlength : n ≤ (touch key (keys.rtake n)).length := by
    have hdrop : (keys.rtake n).Nodup := hnodup.sublist (List.drop_sublist _ _)
    rw [length_touch hdrop, hlast]
    split <;> omega
  have hsplit : touch key keys =
      (keys.take (keys.length - n)).filter (· != key) ++ touch key (keys.rtake n) := by
    unfold touch List.rtake
    rw [← List.append_assoc, ← List.filter_append, List.take_append_drop]
  rw [hsplit]
  unfold List.rtake at hlength ⊢
  rw [List.length_append, Nat.add_sub_assoc hlength, List.drop_append]
  simp

theorem map_key_without (key : String) (es : List (Kept τ α)) :
    (without key es).map (·.key) = (es.map (·.key)).filter (· != key) := by
  rw [List.filter_map]
  rfl

theorem map_key_trimTo (capacity : Int) (es : List (Kept τ α)) :
    (trimTo capacity es).map (·.key) = (es.map (·.key)).rtake capacity.toNat := by
  unfold trimTo List.rtake
  rw [List.map_drop, List.length_map]

section Use

variable [Sub τ] [LT τ] [DecidableLT τ] (policy : CachePolicy τ)

def returned (cache : Cache τ α) (now : τ) (request : String) (tenant : Tenant) : Option (Kept τ α) :=
  matching policy request (fresh policy now (cache.entries tenant))

def touched (tenant : Tenant) (cache : Cache τ α) (u : Timed τ α) : Option String :=
  match u.use with
  | .put request _ owner => if owner = tenant then some (plainRequest request) else none
  | .get request owner =>
    if owner = tenant then (returned policy cache u.time request tenant).map (·.key) else none
  | .invalidate _ => none
  | .clear => none

/-- The keys of a tenant that are touched one after the other, beginning with what is kept. -/
def touchesFrom (tenant : Tenant) : Cache τ α → List (Timed τ α) → List String
  | _, [] => []
  | cache, u :: later =>
    (touched policy tenant cache u).toList ++ touchesFrom tenant (step policy cache u) later

def touches (tenant : Tenant) (history : List (Timed τ α)) : List String :=
  touchesFrom policy tenant [] history

def UnexpiredFrom (tenant : Tenant) : Cache τ α → List (Timed τ α) → Prop
  | _, [] => True
  | cache, u :: later =>
    (∀ request, u.use = .get request tenant →
      ∀ e ∈ cache.entries tenant, ¬policy.lifetime < u.time - e.created) ∧
    UnexpiredFrom tenant (step policy cache u) later

/-- No look-up for a tenant meets an entry that is too old. -/
def Unexpired (tenant : Tenant) (history : List (Timed τ α)) : Prop :=
  UnexpiredFrom policy tenant [] history

variable {policy} {tenant : Tenant}

theorem touches_snoc {history : List (Timed τ α)} {u : Timed τ α} :
    touches policy tenant (history ++ [u]) =
      touches policy tenant history ++ (touched policy tenant (following policy history) u).toList := by
  have hfrom (cache : Cache τ α) : touchesFrom policy tenant cache (history ++ [u]) =
      touchesFrom policy tenant cache history ++
        (touched policy tenant (history.foldl (step policy) cache) u).toList := by
    induction history generalizing cache with
    | nil => simp [touchesFrom]
    | cons v history ih =>
      rw [List.cons_append, touchesFrom, touchesFrom, ih, List.append_assoc, List.foldl_cons]
  exact hfrom []

theorem unexpiredFrom_snoc {cache : Cache τ α} {history : List (Timed τ α)} {u : Timed τ α}
    (h : UnexpiredFrom policy tenant cache (history ++ [u])) :
    UnexpiredFrom policy tenant cache history ∧ ∀ request, u.use = .get request tenant →
      ∀ e ∈ (history.foldl (step policy) cache).entries tenant, ¬policy.lifetime < u.time - e.created := by
  induction history generalizing cache with
  | nil => exact ⟨trivial, h.1⟩
  | cons v history ih =>
    obtain ⟨hfirst, hlater⟩ := h
    obtain ⟨hrest, hlast⟩ := ih hlater
    exact ⟨⟨hfirst, hrest⟩, hlast⟩

/-- What one use does to the keys kept for a tenant: the touched key goes to the end, and from the front
those go that are too many. -/
theorem keys_step {cache : Cache τ α} {u : Timed τ α} (hdrops : u.use ≠ .invalidate tenant ∧ u.use ≠ .clear)
    (hfresh : ∀ request, u.use = .get request tenant →
      ∀ e ∈ cache.entries tenant, ¬policy.lifetime < u.time - e.created)
    (honce : ((cache.entries tenant).map (·.key)).Nodup)
    (hfew : (cache.entries tenant).length ≤ policy.capacity.toNat) :
    ((step policy cache u).entries tenant).map (·.key) =
      match touched policy tenant cache u with
      | some key => (touch key ((cache.entries tenant).map (·.key))).rtake policy.capacity.toNat
      | none => (cache.entries tenant).map (·.key) := by
  obtain ⟨time, use⟩ := u
  by_cases howner : use.tenant? = some tenant
  swap
  · -- A use for another tenant touches nothing of this one, and nothing is dropped for all.
    cases use with
    | put request content owner =>
      have hne : owner ≠ tenant := fun h => howner (congrArg some h)
      rw [entries_step_of_ne rfl hne.symm]
      simp [touched, hne]
    | get request owner =>
      have hne : owner ≠ tenant := fun h => howner (congrArg some h)
      rw [entries_step_of_ne rfl hne.symm]
      simp [touched, hne]
    | invalidate owner =>
      have hne : owner ≠ tenant := fun h => howner (congrArg some h)
      rw [entries_step_of_ne rfl hne.symm]
      simp [touched]
    | clear => exact absurd rfl hdrops.2
  cases use with
  | put request content owner =>
    obtain rfl := Option.some.inj howner
    change ((cache.put policy time request content owner).entries owner).map (·.key) = _
    rw [entries_put_self, map_key_trimTo, List.map_append, map_key_without]
    simp [touched, touch]
  | get request owner =>
    obtain rfl := Option.some.inj howner
    change ((cache.get policy time request owner).2.entries owner).map (·.key) = _
    have hall : fresh policy time (cache.entries owner) = cache.entries owner := by
      apply List.filter_eq_self.mpr
      intro e he
      simpa using hfresh request rfl e he
    rw [entries_get_self]
    simp only [touched, returned, if_true, hall]
    cases hmatch : matching policy request (cache.entries owner) with
    | none => rfl
    | some e =>
      -- Nothing is too old, so that what is found was kept.
      have hkey : e.key ∈ (cache.entries owner).map (·.key) :=
        List.mem_map_of_mem (matching_sound hmatch).1
      -- The entry was there, so that there are as many keys as before.
      have hlength : (touch e.key ((cache.entries owner).map (·.key))).length ≤ policy.capacity.toNat := by
        rw [length_touch honce, if_pos hkey, List.length_map]
        exact hfew
      simp only [Option.map_some]
      rw [List.map_append, map_key_without, List.map_singleton]
      unfold List.rtake
      rw [Nat.sub_eq_zero_of_le hlength, List.drop_zero]
      rfl
  | invalidate owner =>
    obtain rfl := Option.some.inj howner
    exact absurd rfl hdrops.1
  | clear => cases howner

/-- The keys kept for a tenant are the last ones of those touched, in the order of their last touches. -/
theorem keys_following {history : List (Timed τ α)}
    (hdrops : ∀ u ∈ history, u.use ≠ .invalidate tenant ∧ u.use ≠ .clear)
    (hfresh : Unexpired policy tenant history) :
    ((following policy history).entries tenant).map (·.key) =
      (touches policy tenant history).dedup.rtake policy.capacity.toNat := by
  induction history using List.reverseRecOn with
  | nil => simp [following, entries, Table.find?, touches, touchesFrom, List.rtake]
  | append_singleton history u ih =>
    have hlast := (unexpiredFrom_snoc hfresh).2
    rw [← following] at hlast
    have hkeys := ih (fun v hv => hdrops v (List.mem_append_left _ hv)) (unexpiredFrom_snoc hfresh).1
    have hfew : ((following policy history).entries tenant).length ≤ policy.capacity.toNat := by
      rw [← List.length_map (·.key), hkeys]
      unfold List.rtake
      rw [List.length_drop]
      omega
    have haccount : Accounted history tenant ((following policy history).entries tenant) :=
      following_accounted history tenant
    have hstep := keys_step (hdrops u (by simp)) hlast haccount.once hfew
    rw [following_snoc, hstep, touches_snoc, hkeys]
    cases touched policy tenant (following policy history) u with
    | none => simp
    | some key =>
      have hsnoc := dedup_snoc (touches policy tenant history) key
      simp only [Option.toList_some]
      rw [hsnoc, rtake_touch (List.nodup_dedup _) key]

/-- What is touched was put: a look-up only gives back what is kept. -/
theorem mem_touches {history : List (Timed τ α)} {key : String} :
    key ∈ touches policy tenant history ↔
      ∃ u ∈ history, ∃ request content, u.use = .put request content tenant ∧ plainRequest request = key := by
  induction history using List.reverseRecOn with
  | nil => simp [touches, touchesFrom]
  | append_singleton history u ih =>
    rw [touches_snoc, List.mem_append, ih, Option.mem_toList]
    constructor
    · rintro (⟨v, hv, hput⟩ | htouched)
      · exact ⟨v, List.mem_append_left _ hv, hput⟩
      obtain ⟨time, use⟩ := u
      cases use with
      | put request content owner =>
        simp only [touched, Option.ite_none_right_eq_some] at htouched
        obtain ⟨rfl, hkey⟩ := htouched
        exact ⟨⟨time, .put request content owner⟩, by simp, request, content, rfl, Option.some.inj hkey⟩
      | get request owner =>
        simp only [touched, Option.ite_none_right_eq_some] at htouched
        obtain ⟨rfl, hkey⟩ := htouched
        obtain ⟨e, hreturned, rfl⟩ := Option.map_eq_some_iff.mp hkey
        have hkept := (mem_fresh.mp (matching_sound hreturned).1).1
        -- An entry that is kept was put in the history.
        obtain ⟨before, again, later, hhistory, hkey, -⟩ := (following_accounted history owner).put e hkept
        refine ⟨⟨e.created, .put again e.content owner⟩, ?_, again, e.content, rfl, hkey.symm⟩
        simp [hhistory]
      | invalidate owner => cases htouched
      | clear => cases htouched
    · rintro ⟨v, hv, request, content, huse, hkey⟩
      rcases List.mem_append.mp hv with hv | hv
      · exact .inl ⟨v, hv, request, content, huse, hkey⟩
      · obtain rfl := List.mem_singleton.mp hv
        right
        simp [touched, huse, hkey]

/-- As long as nothing is dropped for a tenant and no entry becomes too old, the keys kept for it are, of
all keys ever put, as many as there may be of those touched last, in the order of their last touches. A
look-up finds the content of the entry whose key it touches, and each entry has the content that was put
under its key last. -/
theorem keys_mostRecent {history : List (Timed τ α)}
    (hdrops : ∀ u ∈ history, u.use ≠ .invalidate tenant ∧ u.use ≠ .clear)
    (hfresh : Unexpired policy tenant history) :
    ((following policy history).entries tenant).map (·.key) =
        (touches policy tenant history).dedup.rtake policy.capacity.toNat ∧
      (∀ key, key ∈ touches policy tenant history ↔
        ∃ u ∈ history, ∃ request content, u.use = .put request content tenant ∧ plainRequest request = key) ∧
      (∀ now request, found policy history now request tenant =
        (returned policy (following policy history) now request tenant).map (·.content)) ∧
      ∀ e ∈ (following policy history).entries tenant, ∃ before request later,
        history = before ++ ⟨e.created, .put request e.content tenant⟩ :: later ∧
        plainRequest request = e.key ∧
        ∀ u ∈ later, ∀ again content, u.use = .put again content tenant → plainRequest again ≠ e.key := by
  refine ⟨keys_following hdrops hfresh, fun key => mem_touches, fun now request => get_fst, fun e he => ?_⟩
  obtain ⟨before, request, later, hhistory, hkey, -, hlater⟩ := (following_accounted history tenant).put e he
  refine ⟨before, request, later, hhistory, hkey.symm, fun u hu again content huse => ?_⟩
  have hspares := hlater u hu
  rw [huse] at hspares
  exact hspares rfl

end Use

/-- Two requests put, the first of them sought again in nearly the same words, and then a third one put. -/
def threeRequests : List (Timed Int Nat) := [
  ⟨0, .put "open cases in Texas" 7 none⟩, ⟨1, .put "won deals" 8 none⟩,
  ⟨2, .get "Texas open cases" none⟩, ⟨3, .put "lost deals" 9 none⟩]

theorem keys_mostRecent_texas :
    (∀ u ∈ threeRequests, u.use ≠ .invalidate none ∧ u.use ≠ .clear) ∧
      Unexpired brief none threeRequests ∧
      touches brief none threeRequests =
        ["open cases in texas", "won deals", "open cases in texas", "lost deals"] ∧
      ((following brief threeRequests).entries none).map (·.key) = ["open cases in texas", "lost deals"] := by
  have hdrops : ∀ u ∈ threeRequests, u.use ≠ .invalidate none ∧ u.use ≠ .clear := by
    simp [threeRequests]
  have hfresh : Unexpired brief none threeRequests := by
    refine ⟨nofun, nofun, fun _ _ => by decide +kernel, nofun, trivial⟩
  have htouches : touches brief none threeRequests =
      ["open cases in texas", "won deals", "open cases in texas", "lost deals"] := by
    decide +kernel
  refine ⟨hdrops, hfresh, htouches, ?_⟩
  rw [(keys_mostRecent hdrops hfresh).1, htouches]
  rfl

end Soql.Cache
