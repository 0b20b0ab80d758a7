import Mathlib.Data.List.Forall2
import Mathlib.Tactic.SplitIfs
import Soql.Grounding.Tiers
import Soql.Proofs.Dialogue

namespace Soql

open Text

theorem mapM_id_ok {α β ε : Type} {f : α → Except ε β} {R : α → β → Prop} {items : List α} {results : List β}
    (hR : ∀ a ∈ items, ∀ b, f a = .ok b → R a b) (h : (items.map f).mapM id = .ok results) :
    List.Forall₂ R items results := by
  induction items generalizing results with
  | nil =>
    cases h
    exact .nil
  | cons a items ih =>
    rw [List.map_cons, List.mapM_cons] at h
    cases hfirst : f a with
    | error e =>
      rw [hfirst] at h
      cases h
    | ok b =>
      cases hrest : (items.map f).mapM id with
      | error e =>
        rw [hfirst, hrest] at h
        cases h
      | ok others =>
        rw [hfirst, hrest] at h
        cases h
        exact .cons (hR a List.mem_cons_self b hfirst)
          (ih (fun c hc => hR c (List.mem_cons_of_mem a hc)) hrest)

theorem mapM_id_error {α β ε : Type} {f : α → Except ε β} {items : List α} {e : ε}
    (h : (items.map f).mapM id = .error e) : ∃ a ∈ items, f a = .error e := by
  induction items with
  | nil => cases h
  | cons a items ih =>
    rw [List.map_cons, List.mapM_cons] at h
    cases hfirst : f a with
    | error e' =>
      rw [hfirst] at h
      cases h
      exact ⟨a, List.mem_cons_self, hfirst⟩
    | ok b =>
      cases hrest : (items.map f).mapM id with
      | error e' =>
        rw [hfirst, hrest] at h
        cases h
        obtain ⟨c, hc, herror⟩ := ih hrest
        exact ⟨c, List.mem_cons_of_mem a hc, herror⟩
      | ok others =>
        rw [hfirst, hrest] at h
        cases h

/-- Looking at the form of a value does not fail. -/
def Recognition.Readable (v : String) : Prop :=
  ∃ form, Recognition.of v = .ok form

namespace Grounder

variable (g : Grounder) {term : String}

def AllAbout (candidate : String) (found : List Grounding) : Prop :=
  ∀ x ∈ found, x.candidate = candidate

theorem allAbout_append {candidate : String} {first second : List Grounding} (h : AllAbout candidate first)
    (h' : AllAbout candidate second) : AllAbout candidate (first ++ second) :=
  List.forall_mem_append.mpr ⟨h, h'⟩

theorem byWord_about (term : String) : AllAbout term (byWord term) := by
  unfold byWord
  dsimp only
  apply allAbout_append (allAbout_append ?_ ?_) ?_
  · split
    · intro x hx
      rw [List.mem_singleton.mp hx]
      rfl
    · intro x hx
      cases hx
  · intro x hx
    obtain ⟨value, -, rfl⟩ := List.mem_map.mp hx
    rfl
  · intro x hx
    obtain ⟨value, -, rfl⟩ := List.mem_map.mp hx
    rfl

theorem byValues_about (threshold : Float) (term : String) (objects : List SObject) :
    AllAbout term (byValues threshold term objects) := by
  intro x hx
  obtain ⟨o, -, hx⟩ := List.mem_flatMap.mp hx
  obtain ⟨f, -, hx⟩ := List.mem_flatMap.mp hx
  obtain ⟨value, -, hx⟩ := List.mem_filterMap.mp hx
  unfold byValue at hx
  dsimp only at hx
  split at hx
  · cases hx
    rfl
  · split at hx
    · cases hx
    · cases hx
      rfl

theorem byLabel_about (term : String) (o : SObject) : AllAbout term (byLabel term o) := by
  unfold byLabel
  dsimp only
  apply allAbout_append
  · split
    · intro x hx
      rw [List.mem_singleton.mp hx]
      rfl
    · intro x hx
      cases hx
  · intro x hx
    obtain ⟨f, -, rfl⟩ := List.mem_map.mp hx
    rfl

theorem known_about {objects : List SObject} {found : List Grounding} (h : g.known term objects = .ok found) :
    AllAbout term found := by
  unfold known at h
  cases hform : Recognition.of term with
  | error e =>
    rw [hform] at h
    cases h
  | ok form =>
    rw [hform] at h
    cases h
    intro x hx
    revert x
    simp only [List.mem_mergeSort]
    apply allAbout_append (allAbout_append (allAbout_append ?_ (byWord_about term)) (byValues_about _ _ _))
    · intro x hx
      obtain ⟨o, -, hx⟩ := List.mem_flatMap.mp hx
      exact byLabel_about term o x hx
    · intro x hx
      obtain ⟨r, -, rfl⟩ := Option.map_eq_some_iff.mp (Option.mem_toList.mp hx)
      rfl

/-- Only a value that cannot be read is not looked up. -/
theorem known_error {objects : List SObject} {f : Failure} (h : g.known term objects = .error f) :
    Recognition.of term = .error f := by
  unfold known at h
  cases hform : Recognition.of term with
  | error e =>
    rw [hform] at h
    cases h
    rfl
  | ok form =>
    rw [hform] at h
    cases h

theorem known_readable {objects : List SObject} {found : List Grounding} (h : g.known term objects = .ok found) :
    Recognition.Readable term := by
  unfold known at h
  cases hform : Recognition.of term with
  | error e =>
    rw [hform] at h
    cases h
  | ok form => exact ⟨form, hform⟩

def Decision.About (candidate : String) : Decision → Prop
  | .settled grounding => grounding.candidate = candidate
  | .search term _ _ _ fallback => term = candidate ∧ fallback.candidate = candidate

variable {candidate : String} (hcandidate : trimmed candidate = candidate)

def decision (scope : List String) (term : String) (found : List Grounding) : Decision :=
  let best := found.head?
  let fallback := best.getD { candidate := term, evidence := ["tier1:no match", "tier2:no match"] }
  if best.any fun b => b.confidence > g.confident then .settled fallback
  else
    let sanitized := SearchTerm.sanitize term
    if !g.searches || !SearchTerm.isValid sanitized then .settled fallback
    else .search term sanitized (SearchTerm.searchText sanitized scope g.resultLimit) scope fallback

include hcandidate in
theorem decideOn_eq (objects : List SObject) (scope : List String) :
    g.decideOn objects scope candidate =
      if candidate.isEmpty then .ok (.settled { candidate })
      else (g.known candidate objects).map (g.decision scope candidate) := by
  unfold decideOn
  rw [hcandidate]
  dsimp only
  by_cases hempty : candidate.isEmpty = true
  · rw [if_pos hempty, if_pos hempty]
    rfl
  · rw [if_neg hempty, if_neg hempty]
    cases g.known candidate objects with
    | error e => rfl
    | ok found =>
      -- What is certain, and what cannot be searched for, is settled.
      change (if found.head?.any fun b => b.confidence > g.confident then pure _ else
        if !g.searches || !SearchTerm.isValid (SearchTerm.sanitize candidate) then pure _ else pure _) =
        Except.ok (g.decision scope candidate found)
      unfold decision
      dsimp only
      split_ifs <;> rfl

theorem decision_about {scope : List String} {found : List Grounding} (h : AllAbout term found) :
    (g.decision scope term found).About term := by
  have hbest : ∀ evidence, (found.head?.getD { candidate := term, evidence }).candidate = term := by
    intro evidence
    cases found with
    | nil => rfl
    | cons x found => exact h x List.mem_cons_self
  unfold decision
  dsimp only
  split
  · exact hbest _
  · split
    · exact hbest _
    · exact ⟨rfl, hbest _⟩

include hcandidate in
theorem decideOn_about {objects : List SObject} {scope : List String} {d : Decision}
    (h : g.decideOn objects scope candidate = .ok d) : d.About candidate := by
  rw [decideOn_eq g hcandidate] at h
  split at h
  · cases h
    rfl
  · cases hknown : g.known candidate objects with
    | error e =>
      rw [hknown] at h
      cases h
    | ok found =>
      rw [hknown] at h
      cases h
      exact g.decision_about (g.known_about hknown)

include hcandidate in
theorem decideOn_error {objects : List SObject} {scope : List String} {f : Failure}
    (h : g.decideOn objects scope candidate = .error f) : Recognition.of candidate = .error f := by
  rw [decideOn_eq g hcandidate] at h
  split at h
  · cases h
  · cases hknown : g.known candidate objects with
    | error e =>
      rw [hknown] at h
      cases h
      exact g.known_error hknown
    | ok found =>
      rw [hknown] at h
      cases h

include hcandidate in
theorem decideOn_readable {objects : List SObject} {scope : List String} {d : Decision}
    (h : g.decideOn objects scope candidate = .ok d) : Recognition.Readable candidate := by
  rw [decideOn_eq g hcandidate] at h
  split at h
  case isTrue hempty =>
    rw [String.isEmpty_iff.mp hempty]
    exact ⟨none, rfl⟩
  case isFalse =>
    cases hknown : g.known candidate objects with
    | error e =>
      rw [hknown] at h
      cases h
    | ok found => exact g.known_readable hknown

theorem conclude_about {d : Decision} (h : d.About candidate) (reply : Option (Reply (List Record))) :
    (g.conclude d reply).candidate = candidate := by
  cases d with
  | settled grounding => exact h
  | search term sanitized text scope fallback =>
    cases reply with
    | none => exact h.2
    | some reply =>
      cases reply with
      | answered records =>
        unfold conclude
        dsimp only
        split
        · exact h.1
        · exact h.2
      | failed f => exact h.2
      | silent => exact h.2

/-- Decisions come to one finding each, whatever the replies. -/
theorem concludeAll_about {candidates : List String} {decisions : List Decision}
    (h : List.Forall₂ (fun c d => Decision.About c d) candidates decisions)
    (replies : List (Reply (List Record))) :
    (g.concludeAll decisions replies).map (·.candidate) = candidates := by
  induction h generalizing replies with
  | nil => rfl
  | cons hd _ ih =>
    unfold concludeAll
    split
    · rw [List.map_cons, g.conclude_about hd, ih]
    · rw [List.map_cons, g.conclude_about hd, ih]

/-- Whatever the searches reply, all that was decided is concluded, and else a decision has failed. -/
theorem finish_of {objects : List SObject} {names candidates : List String} {replies : List (Reply (List Record))}
    {R : String → Decision → Prop} {P : List Grounding → Prop} {Q : Failure → Prop}
    (hdecide : ∀ c ∈ candidates, ∀ d, g.decideOn objects names c = .ok d → R c d)
    (hfail : ∀ c ∈ candidates, ∀ f, g.decideOn objects names c = .error f → Q f)
    (hconclude : ∀ decisions, List.Forall₂ R candidates decisions → P (g.concludeAll decisions replies)) :
    Dialogue.Only P Q (match (candidates.map (g.decideOn objects names)).mapM id with
      | .ok decided => .done (g.concludeAll decided replies)
      | .error f => .failed f) := by
  split
  case h_1 decided hdecided => exact .done (hconclude decided (mapM_id_ok hdecide hdecided))
  case h_2 f herror =>
    obtain ⟨c, hc, hdecided⟩ := mapM_id_error herror
    exact .failed (hfail c hc f hdecided)

theorem finish_only {candidates : List String} (h : ∀ c ∈ candidates, trimmed c = c) (objects : List SObject)
    (scope : List String) (replies : List (Reply (List Record))) :
    Dialogue.Only (fun found : List Grounding =>
        found.map (·.candidate) = candidates ∧ ∀ v ∈ candidates, Recognition.Readable v)
      (fun f => ∃ v ∈ candidates, Recognition.of v = .error f)
      (match (candidates.map (g.decideOn objects (searchScope objects scope))).mapM id with
        | .ok decided => .done (g.concludeAll decided replies)
        | .error f => .failed f) := by
  apply g.finish_of (R := fun c d => Recognition.Readable c ∧ Decision.About c d)
  · exact fun c hc _ hd => ⟨g.decideOn_readable (h c hc) hd, g.decideOn_about (h c hc) hd⟩
  · exact fun c hc _ hd => ⟨c, hc, g.decideOn_error (h c hc) hd⟩
  · intro decisions hall
    obtain ⟨hreadable, habout⟩ := (List.forall₂_and_left _ _).mp hall
    exact ⟨g.concludeAll_about habout replies, hreadable⟩

/-- Values grounded together get one finding each, in their order, if all of them can be read. -/
theorem ground_only {candidates : List String} (h : ∀ c ∈ candidates, trimmed c = c) (tenant : Tenant)
    (objects : List SObject) (scope : List String) :
    (g.ground tenant objects scope candidates).Only
      (fun found => found.map (·.candidate) = candidates ∧ ∀ v ∈ candidates, Recognition.Readable v)
      (fun f => ∃ v ∈ candidates, Recognition.of v = .error f) := by
  unfold ground
  dsimp only
  split
  · exact g.finish_only h objects scope []
  · exact .ask (g.finish_only h objects scope)

end Grounder

end Soql
