import Mathlib.Data.List.Induction
import Soql.Proofs.Context.Entries

namespace Soql.Cache

variable {τ α : Type}

inductive Use (α : Type) where
  | put (request : String) (content : α) (tenant : Tenant)
  | get (request : String) (tenant : Tenant)
  | invalidate (tenant : Tenant)
  | clear

/-- The only tenant that a use is for, if it is not for all. -/
def Use.tenant? : Use α → Option Tenant
  | put _ _ tenant => some tenant
  | get _ tenant => some tenant
  | invalidate tenant => some tenant
  | clear => none

structure Timed (τ α : Type) where
  time : τ
  use : Use α

/-- A use leaves the entry of a tenant under a key, if there is one, with the content that it has. -/
def Use.Spares (tenant : Tenant) (key : String) : Use α → Prop
  | put request _ other => other = tenant → plainRequest request ≠ key
  | get _ _ => True
  | invalidate other => other ≠ tenant
  | clear => False

/-- An entry was put for a tenant at its time, and nothing has been put in its place or dropped it since. -/
def PutIn (history : List (Timed τ α)) (tenant : Tenant) (e : Kept τ α) : Prop :=
  ∃ before request later, history = before ++ ⟨e.created, .put request e.content tenant⟩ :: later ∧
    e.key = plainRequest request ∧ e.terms = keptTerms request ∧ ∀ u ∈ later, u.use.Spares tenant e.key

theorem PutIn.snoc {history : List (Timed τ α)} {tenant : Tenant} {e : Kept τ α} {u : Timed τ α}
    (h : PutIn history tenant e) (hu : u.use.Spares tenant e.key) : PutIn (history ++ [u]) tenant e := by
  obtain ⟨before, request, later, rfl, hkey, hterms, hlater⟩ := h
  refine ⟨before, request, later ++ [u], by simp, hkey, hterms, ?_⟩
  intro v hv
  rcases List.mem_append.mp hv with hv | hv
  · exact hlater v hv
  · rw [List.mem_singleton.mp hv]
    exact hu

/-- The entries of a tenant after a history: each was put in it, and no two have the same key. -/
structure Accounted (history : List (Timed τ α)) (tenant : Tenant) (entries : List (Kept τ α)) : Prop where
  put : ∀ e ∈ entries, PutIn history tenant e
  once : (entries.map (·.key)).Nodup

theorem Accounted.nil {history : List (Timed τ α)} {tenant : Tenant} : Accounted history tenant [] where
  put _ he := nomatch he
  once := List.nodup_nil

theorem Accounted.sublist {history : List (Timed τ α)} {tenant : Tenant} {es fs : List (Kept τ α)}
    (h : Accounted history tenant es) (hs : fs.Sublist es) : Accounted history tenant fs where
  put e he := h.put e (hs.mem he)
  once := h.once.sublist (hs.map _)

theorem Accounted.snoc {history : List (Timed τ α)} {tenant : Tenant} {es : List (Kept τ α)} {u : Timed τ α}
    (h : Accounted history tenant es) (hu : ∀ e ∈ es, u.use.Spares tenant e.key) :
    Accounted (history ++ [u]) tenant es where
  put e he := (h.put e he).snoc (hu e he)
  once := h.once

theorem accounted_put {history : List (Timed τ α)} {tenant : Tenant} {es : List (Kept τ α)} {now : τ}
    {request : String} {content : α} (h : Accounted history tenant es) :
    Accounted (history ++ [⟨now, .put request content tenant⟩]) tenant
      (without (plainRequest request) es ++ [⟨plainRequest request, keptTerms request, content, now⟩]) where
  put e he := by
    rcases List.mem_append.mp he with he | he
    -- What was kept before has another key than what is put now.
    · have hold := h.put e (List.mem_filter.mp he).1
      have hkey : e.key ≠ plainRequest request := key_of_without he
      exact hold.snoc fun _ => hkey.symm
    · obtain rfl := List.mem_singleton.mp he
      exact ⟨history, request, [], rfl, by dsimp only, by dsimp only, fun _ hu => nomatch hu⟩
  once := nodup_without_append h.once (by dsimp only)

section Use

variable [Sub τ] [LT τ] [DecidableLT τ] {policy : CachePolicy τ}

/-- What is left of a tenant's entries after a look-up was there before, and no key is there twice. -/
theorem entries_get_accounted {history : List (Timed τ α)} {now : τ} {request : String} {tenant : Tenant}
    {cache : Cache τ α} (h : Accounted history tenant (cache.entries tenant)) :
    Accounted history tenant ((cache.get policy now request tenant).2.entries tenant) where
  put e he := h.put e (mem_entries_get he)
  once := by
    have hfresh : ((fresh policy now (cache.entries tenant)).map (·.key)).Nodup :=
      h.once.sublist (List.filter_sublist.map _)
    rw [entries_get_self]
    cases matching policy request (fresh policy now (cache.entries tenant)) with
    | none => exact hfresh
    | some e => exact nodup_without_append hfresh rfl

variable (policy)

def step (cache : Cache τ α) (u : Timed τ α) : Cache τ α :=
  match u.use with
  | .put request content tenant => cache.put policy u.time request content tenant
  | .get request tenant => (cache.get policy u.time request tenant).2
  | .invalidate tenant => cache.invalidate tenant
  | .clear => cache.clear

def following (history : List (Timed τ α)) : Cache τ α :=
  history.foldl (step policy) []

def found (history : List (Timed τ α)) (now : τ) (request : String) (tenant : Tenant) : Option α :=
  ((following policy history).get policy now request tenant).1

variable {policy}

theorem following_snoc {history : List (Timed τ α)} {u : Timed τ α} :
    following policy (history ++ [u]) = step policy (following policy history) u := by
  simp [following]

/-- A use for one tenant leaves the entries of another one. -/
theorem entries_step_of_ne {cache : Cache τ α} {u : Timed τ α} {tenant other : Tenant}
    (hu : u.use.tenant? = some other) (hne : tenant ≠ other) :
    (step policy cache u).entries tenant = cache.entries tenant := by
  obtain ⟨time, use⟩ := u
  cases use with
  | put request content owner =>
    cases hu
    exact entries_put_of_ne hne
  | get request owner =>
    cases hu
    exact entries_get_of_ne hne
  | invalidate owner =>
    cases hu
    exact entries_invalidate_of_ne hne
  | clear => cases hu

theorem Use.spares_of_ne {u : Use α} {tenant other : Tenant} (hu : u.tenant? = some other)
    (hne : tenant ≠ other) (key : String) : u.Spares tenant key := by
  cases u with
  | put request content owner =>
    cases hu
    exact fun h => absurd h.symm hne
  | get request owner => trivial
  | invalidate owner =>
    cases hu
    exact hne.symm
  | clear => cases hu

/-- Each use of what is kept keeps account of the entries of each tenant. -/
theorem Accounted.step {history : List (Timed τ α)} {cache : Cache τ α} {tenant : Tenant}
    (h : Accounted history tenant (cache.entries tenant)) (u : Timed τ α) :
    Accounted (history ++ [u]) tenant ((step policy cache u).entries tenant) := by
  by_cases hother : ∃ other, u.use.tenant? = some other ∧ tenant ≠ other
  · obtain ⟨other, hu, hne⟩ := hother
    rw [entries_step_of_ne hu hne]
    exact h.snoc fun e _ => Use.spares_of_ne hu hne e.key
  have howner (owner : Tenant) (hu : u.use.tenant? = some owner) : owner = tenant := by
    by_contra hne
    exact hother ⟨owner, hu, fun heq => hne heq.symm⟩
  obtain ⟨time, use⟩ := u
  cases use with
  | put request content owner =>
    obtain rfl := howner owner rfl
    change Accounted _ owner ((cache.put policy time request content owner).entries owner)
    rw [entries_put_self]
    exact (accounted_put h).sublist (List.drop_sublist _ _)
  | get request owner =>
    obtain rfl := howner owner rfl
    have hleft : Accounted history owner ((cache.get policy time request owner).2.entries owner) :=
      entries_get_accounted h
    exact hleft.snoc fun _ _ => trivial
  | invalidate owner =>
    obtain rfl := howner owner rfl
    change Accounted _ owner ((cache.invalidate owner).entries owner)
    rw [entries_invalidate_self]
    exact Accounted.nil
  | clear => exact Accounted.nil

theorem following_accounted (history : List (Timed τ α)) (tenant : Tenant) :
    Accounted history tenant ((following policy history).entries tenant) := by
  induction history using List.reverseRecOn with
  | nil => exact Accounted.nil
  | append_singleton history u ih =>
    rw [following_snoc]
    exact ih.step u

/-- A use for one tenant changes nothing that another one finds. -/
theorem found_snoc_of_ne {history : List (Timed τ α)} {u : Timed τ α} {tenant other : Tenant}
    (hu : u.use.tenant? = some other) (hne : tenant ≠ other) (now : τ) (request : String) :
    found policy (history ++ [u]) now request tenant = found policy history now request tenant := by
  unfold found
  rw [get_fst, get_fst, following_snoc, entries_step_of_ne hu hne]

/-- An entry that is not too old is found under its key. -/
theorem found_of_key {history : List (Timed τ α)} {now : τ} {request : String} {tenant : Tenant} {e : Kept τ α}
    (he : e ∈ (following policy history).entries tenant) (hfresh : ¬policy.lifetime < now - e.created)
    (hkey : e.key = plainRequest request) : found policy history now request tenant = some e.content := by
  have haccount : Accounted history tenant ((following policy history).entries tenant) :=
    following_accounted history tenant
  have honce : ((fresh policy now ((following policy history).entries tenant)).map (·.key)).Nodup :=
    haccount.once.sublist (List.filter_sublist.map _)
  unfold found
  rw [get_fst, matching_of_key honce (mem_fresh.mpr ⟨he, hfresh⟩) hkey]
  rfl

theorem found_after_put {history : List (Timed τ α)} {now later : τ} {request again : String} {content : α}
    {tenant : Tenant} (hcap : 1 ≤ policy.capacity) (hplain : plainRequest request = plainRequest again)
    (hfresh : ¬policy.lifetime < later - now) :
    found policy (history ++ [⟨now, .put request content tenant⟩]) later again tenant = some content := by
  obtain ⟨e, hmem, hkey, rfl, rfl⟩ : ∃ e ∈ (following policy (history ++ [⟨now, .put request content tenant⟩])).entries
      tenant, e.key = plainRequest request ∧ e.content = content ∧ e.created = now := by
    refine ⟨⟨plainRequest request, keptTerms request, content, now⟩, ?_, by dsimp only, rfl, rfl⟩
    rw [following_snoc]
    change _ ∈ ((following policy history).put policy now request content tenant).entries tenant
    rw [entries_put_self]
    exact mem_trimTo_last hcap _ _
  exact found_of_key hmem hfresh (hkey.trans hplain)

/-- What a tenant finds for a request was put for this tenant, after all that was dropped since, not
longer ago than entries are kept, and for the same request or one with nearly the same terms. The
entry under the key of the request comes first, and what was put last is such an entry. A tenant never
has more entries than there may be, and no tenant changes what another one finds. -/
theorem found_accounted (hcap : 0 ≤ policy.capacity) (history : List (Timed τ α)) (now : τ)
    (request : String) (tenant : Tenant) :
    (∀ content, found policy history now request tenant = some content →
      ∃ before created earlier later,
        history = before ++ ⟨created, .put earlier content tenant⟩ :: later ∧
        (∀ u ∈ later, u.use ≠ .invalidate tenant ∧ u.use ≠ .clear) ∧
        ¬policy.lifetime < now - created ∧
        (plainRequest earlier = plainRequest request ∨
          policy.likeness ≤ jaccard (keptTerms request) (keptTerms earlier))) ∧
    (∀ e ∈ (following policy history).entries tenant, ¬policy.lifetime < now - e.created →
      e.key = plainRequest request → found policy history now request tenant = some e.content) ∧
    (∀ created earlier content, 1 ≤ policy.capacity → plainRequest earlier = plainRequest request →
      ¬policy.lifetime < now - created →
      found policy (history ++ [⟨created, .put earlier content tenant⟩]) now request tenant = some content) ∧
    (∀ created earlier content,
      ((following policy (history ++ [⟨created, .put earlier content tenant⟩])).size tenant : Int) ≤
        policy.capacity) ∧
    ∀ (u : Timed τ α) (other : Tenant), u.use.tenant? = some other → tenant ≠ other →
      found policy (history ++ [u]) now request tenant = found policy history now request tenant := by
  refine ⟨?_, fun e he hfresh hkey => found_of_key he hfresh hkey, ?_, ?_,
    fun u other hu hne => found_snoc_of_ne hu hne now request⟩
  · intro content hfound
    unfold found at hfound
    rw [get_fst, Option.map_eq_some_iff] at hfound
    obtain ⟨e, hmatch, rfl⟩ := hfound
    obtain ⟨hmem, hnear⟩ := matching_sound hmatch
    obtain ⟨hkept, hfresh⟩ := mem_fresh.mp hmem
    -- The entry found says when and for which request it was put.
    obtain ⟨before, earlier, later, hhistory, hkey, hterms, hlater⟩ :=
      (following_accounted history tenant).put e hkept
    refine ⟨before, e.created, earlier, later, hhistory, ?_, hfresh, ?_⟩
    · intro u hu
      have hspares := hlater u hu
      constructor
      · intro heq
        rw [heq] at hspares
        exact hspares rfl
      · intro heq
        rw [heq] at hspares
        exact hspares
    · rw [hkey, hterms] at hnear
      exact hnear
  · intro created earlier content hsome hplain hfresh
    exact found_after_put hsome hplain hfresh
  · intro created earlier content
    rw [following_snoc]
    exact size_put_le hcap

end Use

def brief : CachePolicy Int :=
  ⟨10, 2, 0.8⟩

/-- A request put for one tenant and sought again, and another one put for a second tenant that loses it. -/
def twoTenants : List (Timed Int Nat) := [
  ⟨0, .put "Accounts in  Texas" 7 none⟩, ⟨3, .put "accounts in texas" 8 (some "t")⟩,
  ⟨4, .get "ACCOUNTS in Texas" none⟩, ⟨5, .invalidate (some "t")⟩]

theorem found_accounted_texas :
    found brief twoTenants 10 "accounts in TEXAS" none = some 7 ∧
      found brief twoTenants 11 "accounts in TEXAS" none = none ∧
      found brief twoTenants 10 "accounts in TEXAS" (some "t") = none ∧
      ∃ before created earlier later,
        twoTenants = before ++ ⟨created, .put earlier 7 none⟩ :: later ∧
        (∀ u ∈ later, u.use ≠ .invalidate none ∧ u.use ≠ .clear) ∧ ¬brief.lifetime < 10 - created ∧
        (plainRequest earlier = plainRequest "accounts in TEXAS" ∨
          brief.likeness ≤ jaccard (keptTerms "accounts in TEXAS") (keptTerms earlier)) := by
  have hfound : found brief twoTenants 10 "accounts in TEXAS" none = some 7 := by decide +kernel
  refine ⟨hfound, ?_, by decide +kernel, ?_⟩
  · decide +kernel
  · have haccount := found_accounted (show 0 ≤ brief.capacity by decide) twoTenants 10 "accounts in TEXAS" none
    exact haccount.1 7 hfound

end Soql.Cache
