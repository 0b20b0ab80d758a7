import Mathlib.Data.List.Induction
import Soql.Context.Desk
import Soql.Proofs.Context.Entries

/-!
Contexts assembled at once with schema changes. A call that begins after a change was announced
returns details from before it only if another call was overtaken by that announcement and kept
them all the same.
-/

namespace Soql.Desk

variable {τ : Type}

/-- Details from a schema are as new as those that a call beginning at a time may return, or an
overtaken call has kept them since. -/
def Excused (stored : List Storing) (began v : Nat) : Prop :=
  began ≤ v ∨ ∃ s ∈ stored, s.announced = began ∧ s.began < s.announced ∧ v ∈ s.sources ∧ v < s.announced

theorem Excused.append {stored : List Storing} {began v : Nat} (h : Excused stored began v)
    (more : List Storing) : Excused (stored ++ more) began v := by
  rcases h with hle | ⟨s, hs, hrest⟩
  · exact .inl hle
  · exact .inr ⟨s, List.mem_append_left more hs, hrest⟩

structure Accounted (tenant : Tenant) (desk : Desk τ) : Prop where
  announced : desk.announced ≤ desk.schema
  began : ∀ c ∈ desk.calls, c.began ≤ desk.announced
  asked : ∀ c ∈ desk.calls, c.began ≤ c.asked
  held : ∀ c ∈ desk.calls, ∀ v ∈ c.sources, Excused desk.stored c.began v
  kept : ∀ e ∈ desk.cache.entries tenant, ∀ v ∈ e.content.sources, Excused desk.stored desk.announced v
  returned : ∀ r ∈ desk.returned, ∀ v ∈ r.content.sources, Excused desk.stored r.began v

variable {tenant : Tenant} {desk : Desk τ}

theorem accounted_empty : Accounted tenant ({} : Desk τ) where
  announced := Nat.le_refl 0
  began _ hc := nomatch hc
  asked _ hc := nomatch hc
  held _ hc := nomatch hc
  kept _ he := nomatch he
  returned _ hr := nomatch hr

theorem Accounted.change (h : Accounted tenant desk) :
    Accounted tenant { desk with schema := desk.schema + 1 } where
  announced := Nat.le_succ_of_le h.announced
  began := h.began
  asked := h.asked
  held := h.held
  kept := h.kept
  returned := h.returned

/-- An announcement leaves nothing that is kept; calls that have begun go on with what they hold. -/
theorem Accounted.announce (h : Accounted tenant desk) :
    Accounted tenant { desk with announced := desk.schema, cache := desk.cache.invalidate tenant } where
  announced := Nat.le_refl desk.schema
  began c hc := Nat.le_trans (h.began c hc) h.announced
  asked := h.asked
  held := h.held
  kept e he := by
    have hnone : (desk.cache.invalidate tenant).entries tenant = [] := Cache.entries_invalidate_self
    simp only [hnone, List.not_mem_nil] at he
  returned := h.returned

/-- Calls may be given up. -/
theorem Accounted.calls (h : Accounted tenant desk) {calls : List Call} (hsub : ∀ c ∈ calls, c ∈ desk.calls) :
    Accounted tenant { desk with calls } where
  announced := h.announced
  began c hc := h.began c (hsub c hc)
  asked c hc := h.asked c (hsub c hc)
  held c hc := h.held c (hsub c hc)
  kept := h.kept
  returned := h.returned

theorem began_hear {schema : Nat} {answer : (q : Question) → q.Answer} {read : List Nat} {c : Call} :
    (c.hear schema answer read).began = c.began := by
  unfold Call.hear
  split <;> rfl

/-- An answer brings object details from schemas between the question and the answer only. -/
theorem mem_sources_hear {schema : Nat} {answer : (q : Question) → q.Answer} {read : List Nat} {c : Call}
    {v : Nat} (hv : v ∈ (c.hear schema answer read).sources) : v ∈ c.sources ∨ c.asked ≤ v := by
  unfold Call.hear at hv
  split at hv
  case h_1 q next _ =>
    rcases List.mem_append.mp hv with hold | hread
    · exact .inl hold
    · split at hread
      · have hbetween := (List.mem_filter.mp hread).2
        simp only [Bool.and_eq_true, decide_eq_true_eq] at hbetween
        exact .inr hbetween.1
      · cases hread
  case h_2 => exact .inl hv

theorem asked_hear {schema : Nat} {answer : (q : Question) → q.Answer} {read : List Nat} {c : Call} {n : Nat}
    (hc : n ≤ c.asked) (hs : n ≤ schema) : n ≤ (c.hear schema answer read).asked := by
  unfold Call.hear
  split
  · exact hs
  · exact hc

theorem Accounted.reply (h : Accounted tenant desk) (n : Nat) (answer : (q : Question) → q.Answer) (read : List Nat) :
    Accounted tenant { desk with calls := desk.calls.modify n (·.hear desk.schema answer read) } := by
  -- A call now is one that was there, or one that was there with its answer.
  have hcalls : ∀ d ∈ desk.calls.modify n (·.hear desk.schema answer read),
      ∃ c ∈ desk.calls, d = c ∨ d = c.hear desk.schema answer read := by
    intro d hd
    obtain ⟨i, hi, rfl⟩ := List.mem_iff_getElem.mp hd
    rw [List.length_modify] at hi
    refine ⟨desk.calls[i], List.getElem_mem hi, ?_⟩
    rw [List.getElem_modify]
    split
    · exact .inr rfl
    · exact .inl rfl
  refine ⟨h.announced, ?_, ?_, ?_, h.kept, h.returned⟩
  · intro d hd
    obtain ⟨c, hc, rfl | rfl⟩ := hcalls d hd
    · exact h.began _ hc
    · rw [began_hear]
      exact h.began c hc
  · intro d hd
    obtain ⟨c, hc, rfl | rfl⟩ := hcalls d hd
    · exact h.asked _ hc
    · rw [began_hear]
      exact asked_hear (h.asked c hc) (Nat.le_trans (h.began c hc) h.announced)
  · intro d hd v hv
    obtain ⟨c, hc, rfl | rfl⟩ := hcalls d hd
    · exact h.held _ hc v hv
    · rw [began_hear]
      rcases mem_sources_hear hv with hold | hnew
      · exact h.held c hc v hold
      · exact .inl (Nat.le_trans (h.asked c hc) hnew)

/-- What a call holds has its excuse for the time of its end, once the call has kept it. -/
theorem excused_of_storing {stored : List Storing} {c : Call} {announced v : Nat} (hbegan : c.began ≤ announced)
    (hv : v ∈ c.sources) (h : Excused stored c.began v) :
    Excused (stored ++ [⟨c.began, announced, c.sources⟩]) announced v := by
  rcases Nat.lt_or_eq_of_le hbegan with hlt | heq
  · -- The call was overtaken; it is the excuse itself if its details are too old now.
    rcases Nat.lt_or_ge v announced with hold | hnew
    · exact .inr ⟨_, List.mem_append_right _ (List.mem_singleton_self _), rfl, hlt, hv, hold⟩
    · exact .inl hnew
  · rw [← heq]
    exact h.append _

theorem Accounted.finish {policy : CachePolicy τ} (h : Accounted tenant desk) (now : τ) (n : Nat) :
    Accounted tenant (desk.finish policy tenant now n) := by
  unfold Desk.finish
  cases hn : desk.calls[n]? with
  | none => exact h
  | some c =>
    have hc : c ∈ desk.calls := List.mem_of_getElem? hn
    have hless : ∀ d ∈ desk.calls.eraseIdx n, d ∈ desk.calls := fun d hd => List.mem_of_mem_eraseIdx hd
    have hrest := h.calls hless
    dsimp only
    split
    case h_1 context _ =>
      refine ⟨hrest.announced, hrest.began, hrest.asked, hrest.held, hrest.kept, ?_⟩
      intro r hr v hv
      rcases List.mem_append.mp hr with hold | hnew
      · exact h.returned r hold v hv
      · rw [List.mem_singleton.mp hnew] at hv ⊢
        exact h.held c hc v hv
    case h_2 context _ =>
      refine ⟨hrest.announced, hrest.began, hrest.asked, ?_, ?_, ?_⟩
      · intro d hd v hv
        exact (hrest.held d hd v hv).append _
      · intro e he v hv
        rcases Cache.mem_entries_put he with hold | hnew
        · exact (h.kept e hold v hv).append _
        · rw [hnew] at hv
          exact excused_of_storing (h.began c hc) hv (h.held c hc v hv)
      · intro r hr v hv
        rcases List.mem_append.mp hr with hold | hnew
        · exact (h.returned r hold v hv).append _
        · rw [List.mem_singleton.mp hnew] at hv ⊢
          exact (h.held c hc v hv).append _
    case h_3 => exact hrest
    case h_4 => exact h

section Use

variable [Sub τ] [LT τ] [DecidableLT τ] {a : Assembler} {policy : CachePolicy τ}

/-- A call begins with no more than what is kept. -/
theorem Accounted.start (h : Accounted tenant desk) (now : τ) (request : String) :
    Accounted tenant (desk.start a policy tenant now request) := by
  unfold Desk.start
  refine ⟨h.announced, ?_, ?_, ?_, ?_, h.returned⟩
  · intro c hc
    rcases List.mem_append.mp hc with hold | hnew
    · exact h.began c hold
    · obtain rfl := List.mem_singleton.mp hnew
      exact Nat.le_refl desk.announced
  · intro c hc
    rcases List.mem_append.mp hc with hold | hnew
    · exact h.asked c hold
    · rw [List.mem_singleton.mp hnew]
      exact h.announced
  · intro c hc v hv
    rcases List.mem_append.mp hc with hold | hnew
    · exact h.held c hold v hv
    · rw [List.mem_singleton.mp hnew] at hv ⊢
      cases hheld : (desk.cache.get policy now request tenant).1 with
      | none => simp [hheld] at hv
      | some content =>
        obtain ⟨e, he, rfl⟩ := Cache.exists_entry_of_get hheld
        rw [hheld] at hv
        exact h.kept e he v hv
  · intro e he
    exact h.kept e (Cache.mem_entries_get he)

theorem Accounted.step (h : Accounted tenant desk) (event : DeskEvent τ) :
    Accounted tenant (desk.step a policy tenant event) := by
  cases event with
  | change => exact h.change
  | announce => exact h.announce
  | start now request => exact h.start now request
  | reply n answer read => exact h.reply n answer read
  | finish now n => exact h.finish now n
  | cancel n => exact h.calls fun d hd => List.mem_of_mem_eraseIdx hd

theorem run_accounted (events : List (DeskEvent τ)) : Accounted tenant (run a policy tenant events) := by
  induction events using List.reverseRecOn with
  | nil => exact accounted_empty
  | append_singleton events event ih =>
    unfold run at ih ⊢
    rw [List.foldl_append]
    exact ih.step event

/-- In every order of calls and schema changes, a returned context has object details from before the
schema that was announced last when its call began only if a call that had begun before that
announcement has kept them after it; where no call is overtaken so, all that is returned is new enough. -/
theorem returned_current_or_overtaken (events : List (DeskEvent τ)) :
    (∀ r ∈ (run a policy tenant events).returned, ∀ v ∈ r.content.sources,
      r.began ≤ v ∨ ∃ s ∈ (run a policy tenant events).stored,
        s.Overtaken ∧ s.announced = r.began ∧ v ∈ s.sources) ∧
    ((∀ s ∈ (run a policy tenant events).stored, ¬s.Overtaken) →
      ∀ r ∈ (run a policy tenant events).returned, ∀ v ∈ r.content.sources, r.began ≤ v) := by
  have hexcuse : ∀ r ∈ (run a policy tenant events).returned, ∀ v ∈ r.content.sources,
      r.began ≤ v ∨ ∃ s ∈ (run a policy tenant events).stored,
        s.Overtaken ∧ s.announced = r.began ∧ v ∈ s.sources := by
    intro r hr v hv
    rcases (run_accounted events).returned r hr v hv with hnew | ⟨s, hs, hannounced, hbegan, hsource, hold⟩
    · exact .inl hnew
    · exact .inr ⟨s, hs, ⟨hbegan, v, hsource, hold⟩, hannounced, hsource⟩
  refine ⟨hexcuse, ?_⟩
  intro hnone r hr v hv
  rcases hexcuse r hr v hv with hnew | ⟨s, hs, hover, -⟩
  · exact hnew
  · exact absurd hover (hnone s hs)

end Use

def answersOf (o : SObject) : (q : Question) → q.Answer
  | .catalog _ => .ok [o.summary]
  | .details _ names => .ok (names.map fun n => if n == o.name then some o else none)
  | .vectors _ _ _ => .ok ([], [])
  | .searches _ _ texts _ => texts.map fun _ => .answered []
  | .completion _ _ => .ok ""

def ratedAccount : SObject :=
  { name := "Account", fields := [{ name := "Id" }, { name := "Rating" }] }

def unratedAccount : SObject :=
  { name := "Account", fields := [{ name := "Id" }] }

/-- A call has read the object when the object loses a field; the change is announced, and the call
ends. A second call begins after all that. -/
def overtakenCall : List (DeskEvent Nat) := [
  .start 0 "accounts",
  .reply 0 (answersOf ratedAccount) [],
  .reply 0 (answersOf ratedAccount) [0],
  .change,
  .announce,
  .reply 0 (answersOf unratedAccount) [],
  .finish 1 0,
  .start 2 "accounts",
  .finish 2 0]

def fiveMinutes : CachePolicy Nat :=
  ⟨300, 100, 0.8⟩

/-- A call that begins after the announcement returns the object as it was before the change. -/
theorem overtakenCall_returned :
    ((run {} fiveMinutes none overtakenCall).returned.map fun r =>
        (r.began, r.content.sources, r.content.context.catalog)) =
      [(0, [0], [("Account", ratedAccount)]), (1, [0], [("Account", ratedAccount)])] ∧
    ¬∀ r ∈ (run {} fiveMinutes none overtakenCall).returned, ∀ v ∈ r.content.sources, r.began ≤ v := by
  constructor
  · decide +kernel
  · decide +kernel

end Soql.Desk
