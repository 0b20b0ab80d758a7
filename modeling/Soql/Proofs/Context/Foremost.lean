import Soql.Proofs.Context.Entries

namespace Soql.Cache

variable {τ α : Type}

/-- The entry at the end serves a request, and no entry before it has the key of the request. -/
structure Foremost (policy : CachePolicy τ) (request : String) (es : List (Kept τ α)) (e : Kept τ α) : Prop where
  last : ∃ front, es = front ++ [e] ∧ ∀ f ∈ front, f.key ≠ plainRequest request
  serves : e.key = plainRequest request ∨
    (keptTerms request).isEmpty = false ∧ policy.likeness ≤ jaccard (keptTerms request) e.terms

variable {policy : CachePolicy τ} {request : String} {es : List (Kept τ α)} {e : Kept τ α}

theorem Foremost.getLast? (h : Foremost policy request es e) : es.getLast? = some e := by
  obtain ⟨front, rfl, -⟩ := h.last
  exact List.getLast?_concat ..

theorem matching_of_foremost (h : Foremost policy request es e) : matching policy request es = some e := by
  obtain ⟨⟨front, rfl, hothers⟩, hserves⟩ := h
  have hfront : front.find? (·.key == plainRequest request) = none := by
    rw [List.find?_eq_none]
    intro f hf
    simpa using hothers f hf
  unfold matching
  dsimp only
  rw [List.find?_append, hfront, Option.none_or]
  by_cases hkey : e.key = plainRequest request
  · rw [List.find?_cons_of_pos (by simpa using hkey)]
    rfl
  · -- The entry comes first among those with nearly the same terms.
    obtain hserves | ⟨hterms, hlike⟩ := hserves
    · exact absurd hserves hkey
    · rw [List.find?_cons_of_neg (by simpa using hkey), List.find?_nil, Option.orElse_none, hterms,
        List.reverse_append, List.reverse_singleton, List.singleton_append,
        List.find?_cons_of_pos (by simpa using hlike)]
      rfl

/-- The entry that is found moves to the end, where it is foremost. -/
theorem foremost_of_matching (h : matching policy request es = some e) :
    Foremost policy request (without e.key es ++ [e]) e := by
  by_cases hkey : e.key = plainRequest request
  · refine ⟨⟨_, rfl, fun f hf => ?_⟩, .inl hkey⟩
    rw [← hkey]
    exact key_of_without hf
  · -- It was found by its terms, so that no entry has the key.
    unfold matching at h
    dsimp only at h
    cases hfind : es.find? (·.key == plainRequest request) with
    | some f =>
      rw [hfind] at h
      cases h
      exact absurd (by simpa using List.find?_some hfind) hkey
    | none =>
      rw [hfind, Option.orElse_none] at h
      have hnone := List.find?_eq_none.mp hfind
      refine ⟨⟨_, rfl, fun f hf => by simpa using hnone f (List.mem_filter.mp hf).1⟩, .inr ?_⟩
      split at h
      case isTrue => cases h
      case isFalse hterms =>
        refine ⟨by simpa using hterms, ?_⟩
        simpa using List.find?_some h

/-- The last entry stays the last one, or none is left. -/
theorem trimTo_concat (capacity : Int) (es : List (Kept τ α)) (e : Kept τ α) :
    trimTo capacity (es ++ [e]) = [] ∨ ∃ n, trimTo capacity (es ++ [e]) = es.drop n ++ [e] := by
  unfold trimTo
  generalize (es ++ [e]).length - capacity.toNat = n
  rcases Nat.lt_or_ge es.length n with hn | hn
  · left
    apply List.drop_eq_nil_of_le
    rw [List.length_append, List.length_singleton]
    exact hn
  · exact .inr ⟨n, List.drop_append_of_le_length hn⟩

/-- What is put last for a request is foremost, as long as anything is kept. -/
theorem foremost_of_put {now : τ} {content : α} {tenant : Tenant} {cache : Cache τ α}
    (h : ((cache.put policy now request content tenant).entries tenant).getLast? = some e) :
    Foremost policy request ((cache.put policy now request content tenant).entries tenant) e ∧
      e.content = content := by
  rw [entries_put_self] at h ⊢
  rcases trimTo_concat policy.capacity (without (plainRequest request) (cache.entries tenant))
    ⟨plainRequest request, keptTerms request, content, now⟩ with hnone | ⟨n, hrest⟩
  · rw [hnone] at h
    cases h
  · rw [hrest, List.getLast?_concat, Option.some.injEq] at h
    rw [hrest, ← h]
    have hothers : ∀ f ∈ (without (plainRequest request) (cache.entries tenant)).drop n,
        f.key ≠ plainRequest request :=
      fun f hf => key_of_without (List.mem_of_mem_drop hf)
    refine ⟨⟨⟨_, rfl, hothers⟩, ?_⟩, rfl⟩
    dsimp only
    exact .inl rfl

section Age

variable [Sub τ] [LT τ] [DecidableLT τ] {now : τ}

theorem Foremost.fresh (h : Foremost policy request es e) (hfresh : ¬policy.lifetime < now - e.created) :
    Foremost policy request (Cache.fresh policy now es) e := by
  obtain ⟨⟨front, rfl, hothers⟩, hserves⟩ := h
  refine ⟨⟨Cache.fresh policy now front, ?_, fun f hf => hothers f (mem_fresh.mp hf).1⟩, hserves⟩
  unfold Cache.fresh
  rw [List.filter_append, List.filter_cons_of_pos (by simpa using hfresh), List.filter_nil]

/-- The foremost entry is found, and is foremost still. -/
theorem get_of_foremost {tenant : Tenant} {cache : Cache τ α} (h : Foremost policy request (cache.entries tenant) e)
    (hfresh : ¬policy.lifetime < now - e.created) :
    (cache.get policy now request tenant).1 = some e.content := by
  rw [get_fst, matching_of_foremost (h.fresh hfresh)]
  rfl

theorem foremost_of_get {tenant : Tenant} {cache : Cache τ α} {content : α}
    (h : (cache.get policy now request tenant).1 = some content) :
    ∃ e, Foremost policy request ((cache.get policy now request tenant).2.entries tenant) e ∧
      e.content = content := by
  rw [get_fst, Option.map_eq_some_iff] at h
  obtain ⟨e, hmatch, hcontent⟩ := h
  refine ⟨e, ?_, hcontent⟩
  rw [entries_get_self, hmatch]
  exact foremost_of_matching hmatch

end Age

end Soql.Cache
