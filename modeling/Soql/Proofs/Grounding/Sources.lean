import Mathlib.Data.List.Nodup
import Soql.Proofs.Decimal.Order
import Soql.Proofs.Grounding.Candidates
import Soql.Proofs.Schema.Catalog
import Soql.Proofs.Text.Lower
import Soql.Rehearsal

/-!
Where values come from. A value is never made up: it is recognised by its form, an everyday word, a listed
value, the name of something with a name or label like it, or the name of the closest record that a search
returned. Records are searched only when nothing that is known without them is certain, and a search that
fails or is not answered leaves things as one that finds nothing.
-/

namespace Soql

open Text Decimal

section Likeness

/-- Texts of whatever length are alike to a degree that is a number. -/
theorem similarity_isNaN (a b : String) : (similarity a b).isNaN = false := by
  unfold similarity
  dsimp only
  split
  · decide
  case isFalse hsome =>
    rw [Bool.or_eq_true, not_or, String.isEmpty_iff, String.isEmpty_iff] at hsome
    have hlow : lowerChars a.toList ≠ [] := lowerAfter_ne_nil false (by simpa using hsome.1)
    have hlength : max (lowerChars a.toList).length (lowerChars b.toList).length ≠ 0 := by
      have hpos := List.length_pos_iff.mpr hlow
      omega
    exact isNaN_sub (by decide) (isNaN_quotient _ hlength)

end Likeness

namespace Recognition

/-- A number that is read is trusted as far as numbers are. -/
theorem numberText_bind {text : Except Failure String} {f : Form} {value : String} {r : Recognition}
    (h : (do return ← (Except.ok (some ⟨f, ← text, value, 0.9⟩) : Except Failure (Option Recognition))) =
      .ok (some r)) : r.confidence = 0.9 := by
  cases text with
  | error e => cases h
  | ok t =>
    cases h
    rfl

/-- What is recognised by its form is trusted to a degree that is a number. -/
theorem confidence_isNaN {value : String} {r : Recognition} (h : of value = .ok (some r)) :
    r.confidence.isNaN = false := by
  have hphone : (0.85 : Float).isNaN = false := by decide
  have hnumber : (0.9 : Float).isNaN = false := by decide
  have hform : (0.95 : Float).isNaN = false := by decide
  have hliteral : (0.98 : Float).isNaN = false := by decide
  -- The forms are tried in their order, each with a trust of its own.
  unfold of at h
  dsimp only at h
  split at h
  · cases h
  split at h
  · cases h
    exact hform
  split at h
  · cases h
    exact hliteral
  split at h
  · cases h
    exact hform
  split at h
  · cases h
    exact hform
  split at h
  · split at h
    · cases h
    · rw [numberText_bind h]
      exact hnumber
  split at h
  · rw [numberText_bind h]
    exact hnumber
  split at h
  · cases h
    exact hform
  split at h
  · cases h
    exact hphone
  split at h
  · cases h
    exact hform
  · cases h

end Recognition

namespace Grounder

variable (g : Grounder) {objects : List SObject} {term : String}

inductive FromMetadata (objects : List SObject) (term : String) : String → Prop
  | form {r : Recognition} (h : Recognition.of term = .ok (some r)) : FromMetadata objects term r.normalized
  | objectWord {value : String} (h : Vocabulary.objectOf? (lower term) = some value ∨
      Vocabulary.objectOf? (.ofList (dropEnd (· == 's') (lower term).toList)) = some value) :
    FromMetadata objects term value
  | keyword {value : String} (h : Vocabulary.priorityWords.lookup (lower term) = some value ∨
      Vocabulary.statusWords.lookup (lower term) = some value) : FromMetadata objects term value
  | listed {o : SObject} {f : Field} {value : String} (ho : o ∈ objects) (hf : f ∈ o.fields)
      (hvalue : value ∈ f.values)
      (h : lower value = lower term ∨ g.fuzzyThreshold ≤ similarity term value) :
    FromMetadata objects term value
  | object {o : SObject} (ho : o ∈ objects) (h : lower o.name = lower term ∨ lower o.label = lower term) :
    FromMetadata objects term o.name
  | field {o : SObject} {f : Field} (ho : o ∈ objects) (hf : f ∈ o.fields)
      (h : lower f.label = lower term) : FromMetadata objects term f.name

/-- How close a record is to a term: the edits between them, then the place of its object. -/
def closeness (sanitized : String) (names : List String) (r : Record) : Nat ×ₗ Nat :=
  toLex ((SearchTerm.likenessToName sanitized r.name).2, place names r.object)

/-- A record is the closest of those that are like a term: no record is closer, and none before it as
close. -/
structure Closest (sanitized : String) (names : List String) (records : List Record) (r : Record) : Prop where
  like : g.fuzzyThreshold ≤ (SearchTerm.likenessToName sanitized r.name).1
  first : ∃ before after, records = before ++ r :: after ∧
    (∀ q ∈ before, g.fuzzyThreshold ≤ (SearchTerm.likenessToName sanitized q.name).1 →
      closeness sanitized names r < closeness sanitized names q) ∧
    ∀ q ∈ after, g.fuzzyThreshold ≤ (SearchTerm.likenessToName sanitized q.name).1 →
      closeness sanitized names r ≤ closeness sanitized names q

/-- Where a value comes from: what is known without asking, or the closest of the records that a search for
the term was answered with. What a search replies is given together with the state that it leaves, and the
search was made if that is the state in the end. -/
inductive Sourced {σ : Type} (objects : List SObject) (names : List String) (term : String)
    (search : String → Reply (List Record) × σ) (state : σ) : String → Prop
  | metadata {value : String} (h : g.FromMetadata objects term value) :
    Sourced objects names term search state value
  | record {text : String} {records : List Record} {r : Record}
      (htext : SearchTerm.search (SearchTerm.sanitize term) names g.resultLimit = .ok text)
      (hreply : search text = (.answered records, state))
      (h : g.Closest (SearchTerm.sanitize term) names records r) :
    Sourced objects names term search state r.name

/-- One value is grounded without asking, or by one search when nothing known of it is certain; a search
that fails or is not answered leads to what an empty one leads to. -/
inductive Sparing (tenant : Tenant) (objects : List SObject) (names : List String) (term : String) :
    Dialogue (List Grounding) → Prop
  | done (grounding : Grounding) : Sparing tenant objects names term (.done [grounding])
  | failed (f : Failure) : Sparing tenant objects names term (.failed f)
  | searches {text : String} {found : List Grounding}
      {next : List (Reply (List Record)) → Dialogue (List Grounding)}
      (hsearch : SearchTerm.search (SearchTerm.sanitize term) names g.resultLimit = .ok text)
      (hknown : g.known term objects = .ok found)
      (huncertain : ∀ m ∈ found, ¬g.confident < m.confidence)
      (hdone : ∀ reply, ∃ grounding, next [reply] = .done [grounding])
      (hfailed : ∀ f, next [.failed f] = next [.answered []])
      (hsilent : next [.silent] = next [.answered []]) :
    Sparing tenant objects names term (.ask (.searches tenant g.searchTime [text] true) next)

section Known

variable {m : Grounding}

/-- A finding has a value that is known without asking, and a confidence that is a number. -/
def Known (objects : List SObject) (term : String) (m : Grounding) : Prop :=
  (∃ value, m.value = some value ∧ g.FromMetadata objects term value) ∧ m.confidence.isNaN = false

theorem ofRecognition_known {r : Recognition} (h : Recognition.of term = .ok (some r)) :
    g.Known objects term (ofRecognition term r) :=
  ⟨⟨r.normalized, rfl, .form h⟩, Recognition.confidence_isNaN h⟩

theorem keywordGrounding_known {low field value : String} {confidence : Float}
    (hvalue : Vocabulary.priorityWords.lookup (lower term) = some value ∨
      Vocabulary.statusWords.lookup (lower term) = some value) (hconfidence : confidence.isNaN = false) :
    g.Known objects term (keywordGrounding term low field value confidence) :=
  ⟨⟨value, rfl, .keyword hvalue⟩, hconfidence⟩

theorem objectOfWord_cases {object : String} (h : objectOfWord (lower term) = some object) :
    Vocabulary.objectOf? (lower term) = some object ∨
      Vocabulary.objectOf? (.ofList (dropEnd (· == 's') (lower term).toList)) = some object := by
  unfold objectOfWord at h
  cases hfull : Vocabulary.objectOf? (lower term) with
  | some o =>
    rw [hfull, Option.orElse_some] at h
    exact .inl h
  | none =>
    rw [hfull, Option.orElse_none] at h
    exact .inr h

theorem byWord_known (h : m ∈ byWord term) : g.Known objects term m := by
  have hobjectTrust : (0.9 : Float).isNaN = false := by decide
  have hstateTrust : (0.85 : Float).isNaN = false := by decide
  unfold byWord at h
  dsimp only at h
  rcases List.mem_append.mp h with h | hstate
  · rcases List.mem_append.mp h with hobject | hpriority
    · split at hobject
      case h_1 object hword =>
        rw [List.mem_singleton.mp hobject]
        exact ⟨⟨object, rfl, .objectWord (objectOfWord_cases hword)⟩, hobjectTrust⟩
      case h_2 => cases hobject
    · obtain ⟨value, hvalue, rfl⟩ := List.mem_map.mp hpriority
      exact g.keywordGrounding_known (.inl (Option.mem_toList.mp hvalue)) hobjectTrust
  · obtain ⟨value, hvalue, rfl⟩ := List.mem_map.mp hstate
    exact g.keywordGrounding_known (.inr (Option.mem_toList.mp hvalue)) hstateTrust

theorem trustIn_isFactor (category : Option String) : isFactor (Vocabulary.trustIn category) = true := by
  have hlisted : Vocabulary.categoryTrust.all (isFactor ·.2) = true := by decide
  unfold Vocabulary.trustIn
  cases hfound : Vocabulary.categoryTrust.lookup (category.getD "") with
  | none => decide
  | some trust =>
    obtain ⟨before, after, hlist, -⟩ := List.lookup_eq_some_iff.mp hfound
    rw [hlist, List.all_append, List.all_cons, Bool.and_eq_true, Bool.and_eq_true] at hlisted
    exact hlisted.2.1

theorem byValues_known (hthreshold : g.fuzzyThreshold.isNaN = false)
    (h : m ∈ byValues g.fuzzyThreshold term objects) : g.Known objects term m := by
  obtain ⟨o, ho, h⟩ := List.mem_flatMap.mp h
  obtain ⟨f, hf, h⟩ := List.mem_flatMap.mp h
  obtain ⟨value, hvalue, h⟩ := List.mem_filterMap.mp h
  have htrust := trustIn_isFactor o.category
  unfold byValue at h
  dsimp only at h
  split at h
  case isTrue hsame =>
    cases h
    have hlow : lower value = lower term := beq_iff_eq.mp hsame
    exact ⟨⟨value, rfl, .listed ho hf hvalue (.inl hlow)⟩, isNaN_mul (.inr ⟨by decide, htrust⟩)⟩
  case isFalse =>
    split at h
    case isTrue => cases h
    case isFalse hlike =>
      cases h
      have hnumber := similarity_isNaN term value
      have hreached := le_of_not_below hnumber hthreshold hlike
      have hscaled : (0.8 * similarity term value).isNaN = false := isNaN_mul (.inl ⟨by decide, hnumber⟩)
      exact ⟨⟨value, rfl, .listed ho hf hvalue (.inr hreached)⟩, isNaN_mul (.inr ⟨hscaled, htrust⟩)⟩

theorem byLabel_known {o : SObject} (ho : o ∈ objects) (h : m ∈ byLabel term o) :
    g.Known objects term m := by
  have hobjectTrust : (0.9 : Float).isNaN = false := by decide
  have hfieldTrust : (0.8 : Float).isNaN = false := by decide
  unfold byLabel at h
  dsimp only at h
  rcases List.mem_append.mp h with hobject | hfield
  · split at hobject
    case isTrue hsame =>
      rw [List.mem_singleton.mp hobject]
      rw [Bool.or_eq_true, beq_iff_eq, beq_iff_eq] at hsame
      exact ⟨⟨o.name, rfl, .object ho hsame⟩, hobjectTrust⟩
    case isFalse => cases hobject
  · obtain ⟨f, hf, rfl⟩ := List.mem_map.mp hfield
    obtain ⟨hf, hsame⟩ := List.mem_filter.mp hf
    exact ⟨⟨f.name, rfl, .field ho hf (beq_iff_eq.mp hsame)⟩, hfieldTrust⟩

variable {found : List Grounding}

/-- All that is known comes from what is given, and nothing known is more certain than the first. -/
theorem known_cases (hthreshold : g.fuzzyThreshold.isNaN = false) (h : g.known term objects = .ok found) :
    (∀ m ∈ found, g.Known objects term m) ∧
      ∀ best rest, found = best :: rest → ∀ m ∈ found, ¬best.confidence < m.confidence := by
  unfold known at h
  cases hform : Recognition.of term with
  | error e =>
    rw [hform] at h
    cases h
  | ok form =>
    rw [hform] at h
    cases h
    have hall : ∀ m ∈ (form.map (ofRecognition term)).toList ++ byWord term ++
        byValues g.fuzzyThreshold term objects ++ objects.flatMap (byLabel term), g.Known objects term m := by
      intro m hm
      rcases List.mem_append.mp hm with hm | hm
      · rcases List.mem_append.mp hm with hm | hm
        · rcases List.mem_append.mp hm with hm | hm
          · obtain ⟨r, rfl, rfl⟩ := Option.map_eq_some_iff.mp (Option.mem_toList.mp hm)
            exact g.ofRecognition_known hform
          · exact g.byWord_known hm
        · exact g.byValues_known hthreshold hm
      · obtain ⟨o, ho, hm⟩ := List.mem_flatMap.mp hm
        exact g.byLabel_known ho hm
    constructor
    · intro m hm
      exact hall m (List.mem_mergeSort.mp hm)
    · intro best rest hsorted m hm
      exact not_lt_of_mergeSort (fun m hm => (hall m hm).2) hsorted m (List.mem_mergeSort.mp hm)

/-- What is left when no record is found is the first of what is known, or nothing. -/
theorem known_head (hthreshold : g.fuzzyThreshold.isNaN = false) (h : g.known term objects = .ok found)
    {otherwise : Grounding} (hnothing : otherwise.value = none) {value : String}
    (hvalue : (found.head?.getD otherwise).value = some value) : g.FromMetadata objects term value := by
  cases found with
  | nil =>
    rw [List.head?_nil, Option.getD_none, hnothing] at hvalue
    cases hvalue
  | cons best rest =>
    obtain ⟨⟨known, hknown, hsource⟩, -⟩ := (g.known_cases hthreshold h).1 best List.mem_cons_self
    rw [List.head?_cons, Option.getD_some, hknown] at hvalue
    cases hvalue
    exact hsource

/-- When the first of what is known is not certain, nothing is. -/
theorem known_uncertain (hthreshold : g.fuzzyThreshold.isNaN = false) (h : g.known term objects = .ok found)
    (hbest : ¬found.head?.any (fun b => b.confidence > g.confident) = true) :
    ∀ m ∈ found, ¬g.confident < m.confidence := by
  obtain ⟨hknown, hfirst⟩ := g.known_cases hthreshold h
  cases found with
  | nil =>
    intro m hm
    cases hm
  | cons best rest =>
    intro m hm hcertain
    rcases lt_or_lt_of_lt (hknown best List.mem_cons_self).2 hcertain with hlt | hlt
    · exact hbest (decide_eq_true hlt)
    · exact hfirst best rest rfl m hm hlt

end Known

section Records

variable {α : Type} {key : α → Nat × Nat}

/-- The place of an object is that of its only mention, or behind all the others. -/
theorem place_eq_idxOf {names : List String} (h : names.Nodup) (object : String) :
    place names object = names.idxOf object := by
  unfold place
  by_cases hobject : object ∈ names
  · obtain ⟨before, after, rfl⟩ := List.append_of_mem hobject
    rw [List.nodup_middle, List.nodup_cons, List.mem_append, not_or] at h
    obtain ⟨⟨hbefore, hafter⟩, -⟩ := h
    -- Counted from the end, what is met first is the only mention.
    have hlast : (before ++ object :: after).reverse.findIdx? (· == object) = some after.length := by
      rw [List.reverse_append, List.reverse_cons, List.append_assoc, List.findIdx?_append,
        List.findIdx?_eq_none_iff.mpr, List.singleton_append, List.findIdx?_cons, beq_self_eq_true, if_pos rfl]
      · simp
      · intro other hother
        have hne : other ≠ object := fun heq => hafter (List.mem_reverse.mp (heq ▸ hother))
        simpa using hne
    rw [hlast, List.idxOf_append_of_notMem hbefore, List.idxOf_cons_self, List.length_append, List.length_cons]
    dsimp only
    omega
  · have hnone : names.reverse.findIdx? (· == object) = none := by
      rw [List.findIdx?_eq_none_iff]
      intro other hother
      have hne : other ≠ object := fun heq => hobject (List.mem_reverse.mp (heq ▸ hother))
      simpa using hne
    rw [hnone, List.idxOf_eq_length hobject]
    exact congrArg List.length (eraseDups_of_nodup h)

theorem ranksBefore_iff (a b : Nat × Nat) : ranksBefore a b = true ↔ toLex a < toLex b := by
  rw [ranksBefore, Prod.Lex.toLex_lt_toLex]
  simp

theorem firstBest_none {items : List α} (h : firstBest key items = none) : items = [] := by
  cases items with
  | nil => rfl
  | cons a rest =>
    unfold firstBest at h
    split at h <;> cases h

/-- The first best is before all others as good, and none is better. -/
theorem firstBest_cases {items : List α} {best : α} (h : firstBest key items = some best) :
    ∃ before after, items = before ++ best :: after ∧ (∀ a ∈ before, toLex (key best) < toLex (key a)) ∧
      ∀ a ∈ after, toLex (key best) ≤ toLex (key a) := by
  induction items generalizing best with
  | nil => cases h
  | cons a rest ih =>
    unfold firstBest at h
    cases hrest : firstBest key rest with
    | none =>
      rw [hrest] at h
      cases h
      obtain rfl := firstBest_none hrest
      exact ⟨[], [], rfl, List.forall_mem_nil _, List.forall_mem_nil _⟩
    | some b =>
      obtain ⟨before, after, hsplit, hbefore, hafter⟩ := ih hrest
      rw [hrest] at h
      dsimp only at h
      split at h
      -- The best of the rest comes later, so that it has to be better than the first.
      case isTrue hless =>
        cases h
        rw [ranksBefore_iff] at hless
        refine ⟨a :: before, after, ?_, List.forall_mem_cons.mpr ⟨hless, hbefore⟩, hafter⟩
        rw [hsplit, List.cons_append]
      case isFalse hless =>
        cases h
        rw [ranksBefore_iff, not_lt] at hless
        refine ⟨[], rest, rfl, List.forall_mem_nil _, ?_⟩
        intro c hc
        have hleast : toLex (key b) ≤ toLex (key c) := by
          rw [hsplit] at hc
          rcases List.mem_append.mp hc with hc | hc
          · exact (hbefore c hc).le
          · rcases List.mem_cons.mp hc with rfl | hc
            · exact le_rfl
            · exact hafter c hc
        exact hless.trans hleast

/-- The record that a search finds is the closest. -/
theorem closestRecord_closest {sanitized : String} {names : List String} {records : List Record} {r : Record}
    (h : g.closestRecord sanitized names records = some r) : g.Closest sanitized names records r := by
  obtain ⟨before, after, hlike, hbefore, hafter⟩ := firstBest_cases h
  obtain ⟨first, second, hrecords, hfirst, hsecond⟩ := List.filter_eq_append_iff.mp hlike
  obtain ⟨skipped, others, rfl, hskipped, hr, hothers⟩ := List.filter_eq_cons_iff.mp hsecond
  -- The records that are not like the term stand in between without a part in the contest.
  refine ⟨of_decide_eq_true hr, first ++ skipped, others, ?_, ?_, ?_⟩
  · rw [hrecords, List.append_assoc]
  · intro q hq hqlike
    rcases List.mem_append.mp hq with hq | hq
    · exact hbefore q (hfirst ▸ List.mem_filter.mpr ⟨hq, decide_eq_true hqlike⟩)
    · exact absurd (decide_eq_true hqlike) (hskipped q hq)
  · intro q hq hqlike
    exact hafter q (hothers ▸ List.mem_filter.mpr ⟨hq, decide_eq_true hqlike⟩)

end Records

section Decisions

variable {names : List String} {candidate : String} {d : Decision}

/-- What is decided on a term: it is settled by what is known, or searched for when nothing known is
certain. -/
inductive Decided (objects : List SObject) (names : List String) (term : String) : Decision → Prop
  | settled {m : Grounding} (h : ∀ value, m.value = some value → g.FromMetadata objects term value) :
    Decided objects names term (.settled m)
  | search {text : String} {found : List Grounding} {m : Grounding}
      (hsearch : SearchTerm.search (SearchTerm.sanitize term) names g.resultLimit = .ok text)
      (hknown : g.known term objects = .ok found) (huncertain : ∀ m ∈ found, ¬g.confident < m.confidence)
      (h : ∀ value, m.value = some value → g.FromMetadata objects term value) :
    Decided objects names term (.search term (SearchTerm.sanitize term) text names m)

theorem decideOn_decided (hthreshold : g.fuzzyThreshold.isNaN = false)
    (h : g.decideOn objects names candidate = .ok d) : g.Decided objects names (trimmed candidate) d := by
  unfold decideOn at h
  dsimp only at h
  split at h
  case isTrue =>
    cases h
    exact .settled fun value hvalue => by cases hvalue
  case isFalse =>
    cases hknown : g.known (trimmed candidate) objects with
    | error e =>
      rw [hknown] at h
      cases h
    | ok found =>
      rw [hknown] at h
      -- What is certain is settled at once, and so is what cannot be searched for.
      change (if found.head?.any (fun b => b.confidence > g.confident) = true then _ else
        if (!g.searches || !SearchTerm.isValid (SearchTerm.sanitize (trimmed candidate))) = true then _ else _) =
        Except.ok d at h
      split at h
      case isTrue =>
        cases h
        exact .settled fun value hvalue => g.known_head hthreshold hknown rfl hvalue
      case isFalse huncertain =>
        split at h
        case isTrue =>
          cases h
          exact .settled fun value hvalue => g.known_head hthreshold hknown rfl hvalue
        case isFalse hvalid =>
          cases h
          rw [Bool.or_eq_true, not_or, Bool.not_eq_true', Bool.not_eq_true', Bool.not_eq_false,
            Bool.not_eq_false] at hvalid
          exact .search (if_pos hvalid.2) hknown (g.known_uncertain hthreshold hknown huncertain)
            fun value hvalue => g.known_head hthreshold hknown rfl hvalue

variable {σ : Type} {search : String → Reply (List Record) × σ} {state : σ}

/-- What a decision comes to has a source, if the search it asks for is made. -/
theorem conclude_sourced (hd : g.Decided objects names term d) {text : String} (htext : d.text? = some text)
    {reply : Reply (List Record)} (hreply : search text = (reply, state)) {value : String}
    (hvalue : (g.conclude d (some reply)).value = some value) :
    g.Sourced objects names term search state value := by
  cases hd with
  | settled h => cases htext
  | search hsearch hknown huncertain h =>
    cases htext
    cases reply with
    | answered records =>
      unfold conclude at hvalue
      dsimp only at hvalue
      split at hvalue
      case h_1 r hr =>
        cases hvalue
        exact .record hsearch hreply (g.closestRecord_closest hr)
      case h_2 => exact .metadata (h value hvalue)
    | failed f => exact .metadata (h value hvalue)
    | silent => exact .metadata (h value hvalue)

/-- Without a reply a decision comes to what is known. -/
theorem conclude_metadata (hd : g.Decided objects names term d) {reply : Option (Reply (List Record))}
    (hreply : reply = none ∨ reply = some .silent) {value : String}
    (hvalue : (g.conclude d reply).value = some value) : g.FromMetadata objects term value := by
  cases hd with
  | settled h => exact h value hvalue
  | search hsearch hknown huncertain h => obtain rfl | rfl := hreply <;> exact h value hvalue

theorem concludeAll_one {text : String} (htext : d.text? = some text) (reply : Reply (List Record)) :
    g.concludeAll [d] [reply] = [g.conclude d (some reply)] := by
  unfold concludeAll
  rw [htext]
  rfl

theorem concludeAll_settled (htext : d.text? = none) : g.concludeAll [d] [] = [g.conclude d none] := by
  unfold concludeAll
  rw [htext]
  rfl

/-- One value is grounded by what is decided on it. -/
theorem ground_one (tenant : Tenant) (objects : List SObject) (scope : List String) (candidate : String) :
    g.ground tenant objects scope [candidate] =
      match g.decideOn objects (searchScope objects scope) candidate with
      | .error f => .failed f
      | .ok d =>
        match d.text? with
        | none => .done [g.conclude d none]
        | some text =>
          .ask (.searches tenant g.searchTime [text] true) fun replies => .done (g.concludeAll [d] replies) := by
  unfold ground
  dsimp only
  cases hdecide : g.decideOn objects (searchScope objects scope) candidate with
  | error f =>
    rw [List.map_cons, List.map_nil, hdecide]
    rfl
  | ok d =>
    rw [List.map_cons, List.map_nil, hdecide]
    dsimp only
    cases htext : d.text? with
    | none =>
      have hnone : ([.ok d] : List (Except Failure Decision)).filterMap
          (fun d => d.toOption.bind Decision.text?) = [] :=
        List.filterMap_cons_none htext
      rw [hnone]
      exact congrArg Dialogue.done (g.concludeAll_settled htext)
    | some text =>
      have hsome : ([.ok d] : List (Except Failure Decision)).filterMap
          (fun d => d.toOption.bind Decision.text?) = [text] :=
        List.filterMap_cons_some htext
      rw [hsome]
      rfl

/-- One search is not answered, or it is made and replied to as the world replies. -/
theorem answer_one (w : World σ) (tenant : Tenant) (time : Float) (text : String) (s : σ)
    {seconds : Float} {replies : List (Reply (List Record))}
    (h : ((w.answer (.searches tenant time [text] true)).run s).1 = .after seconds replies) :
    replies = [.silent] ∨ ∃ reply, replies = [reply] ∧
      (w.search tenant text).run s = (reply, ((w.answer (.searches tenant time [text] true)).run s).2) := by
  unfold World.answer at h ⊢
  dsimp only at h ⊢
  split at h
  case isTrue =>
    cases h
    exact .inl rfl
  case isFalse htime =>
    rw [if_neg htime]
    simp only [List.mapM_cons, List.mapM_nil] at h ⊢
    cases h
    exact .inr ⟨_, rfl, rfl⟩

/-- A value that is grounded has a source, however its search is answered. -/
theorem ground_one_sourced (hthreshold : g.fuzzyThreshold.isNaN = false) {w : World σ} {expires : Option Float}
    {tenant : Tenant} {objects : List SObject} {scope : List String} {candidate : String} {x y : Clocked σ}
    {found : List Grounding}
    (h : ((g.ground tenant objects scope [candidate]).run w expires).run x = (.done found, y)) :
    ∃ grounding, found = [grounding] ∧ ∀ value, grounding.value = some value →
      g.Sourced objects (searchScope objects scope) (trimmed candidate)
        (fun text => (w.search tenant text).run x.state) y.state value := by
  rw [ground_one] at h
  cases hdecide : g.decideOn objects (searchScope objects scope) candidate with
  | error f =>
    rw [hdecide] at h
    cases h
  | ok d =>
    have hd := g.decideOn_decided hthreshold hdecide
    rw [hdecide] at h
    dsimp only at h
    cases htext : d.text? with
    | none =>
      rw [htext] at h
      cases h
      exact ⟨_, rfl, fun value hvalue => .metadata (g.conclude_metadata hd (.inl rfl) hvalue)⟩
    | some text =>
      rw [htext] at h
      dsimp only at h
      rcases Dialogue.run_ask_cases _ w expires x with ⟨now, hrun⟩ | ⟨seconds, replies, now, hreplies, hrun⟩
      · rw [hrun] at h
        cases h
      · rw [hrun] at h
        cases h
        -- Without any time for it the search is not made, and its records do not count.
        obtain rfl | ⟨reply, rfl, hreply⟩ := answer_one w tenant g.searchTime text x.state hreplies
        · refine ⟨_, g.concludeAll_one htext _, fun value hvalue => ?_⟩
          exact .metadata (g.conclude_metadata hd (.inr rfl) hvalue)
        · exact ⟨_, g.concludeAll_one htext _, fun value hvalue => g.conclude_sourced hd htext hreply hvalue⟩

theorem ground_one_sparing (hthreshold : g.fuzzyThreshold.isNaN = false) (tenant : Tenant)
    (objects : List SObject) (scope : List String) (candidate : String) :
    g.Sparing tenant objects (searchScope objects scope) (trimmed candidate)
      (g.ground tenant objects scope [candidate]) := by
  rw [ground_one]
  cases hdecide : g.decideOn objects (searchScope objects scope) candidate with
  | error f => exact .failed f
  | ok d =>
    cases g.decideOn_decided hthreshold hdecide with
    | settled => exact .done _
    | search hsearch hknown huncertain =>
      exact .searches hsearch hknown huncertain (fun reply => ⟨_, rfl⟩) (fun f => rfl) rfl

/-- A value is grounded only to what is known without asking or to the closest record that was found, and
records are searched only when nothing known is certain. Blanks around the value do not count, and the
threshold must be a number. Of records with as many edits the one whose object has the earlier place is
closer; the place is that of the last mention, the only one among objects without repetition. -/
theorem ground_sourced (hthreshold : g.fuzzyThreshold.isNaN = false) (tenant : Tenant) (objects : List SObject)
    (scope : List String) (candidate : String) :
    (∀ (w : World σ) (expires : Option Float) (x y : Clocked σ) (found : List Grounding),
      ((g.ground tenant objects scope [candidate]).run w expires).run x = (.done found, y) →
      ∃ grounding, found = [grounding] ∧ ∀ value, grounding.value = some value →
        g.Sourced objects (searchScope objects scope) (trimmed candidate)
          (fun text => (w.search tenant text).run x.state) y.state value) ∧
    ((searchScope objects scope).Nodup → ∀ object,
      place (searchScope objects scope) object = (searchScope objects scope).idxOf object) ∧
    g.Sparing tenant objects (searchScope objects scope) (trimmed candidate)
      (g.ground tenant objects scope [candidate]) := by
  refine ⟨?_, place_eq_idxOf, g.ground_one_sparing hthreshold tenant objects scope candidate⟩
  intro w expires x y found hrun
  exact g.ground_one_sourced hthreshold hrun

/-- Of records as close to the value the first one of the object named first is taken. -/
theorem ground_sourced_account :
    let w : World Rehearsal := { Rehearsal.world with search := fun _ _ => pure (.answered
      [⟨"Contact", "1", "Acme", []⟩, ⟨"Account", "2", "ACME", []⟩, ⟨"Account", "3", "Acme", []⟩]) }
    ({} : Grounder).fuzzyThreshold.isNaN = false ∧ ["Account", "Contact"].Nodup ∧
    ∃ grounding y, ((({} : Grounder).ground none [] ["Account", "Contact"] [" Acme"]).run w none).run
        { state := {} } = (.done [grounding], y) ∧ grounding.value = some "ACME" ∧
      ({} : Grounder).Sourced [] ["Account", "Contact"] "Acme" (fun text => (w.search none text).run {})
        y.state "ACME" := by
  intro w
  have hthreshold : ({} : Grounder).fuzzyThreshold.isNaN = false := by decide
  have hterm : trimmed " Acme" = "Acme" := by decide
  let outcome := ((({} : Grounder).ground none [] ["Account", "Contact"] [" Acme"]).run w none).run
    { state := {} }
  have hshown : outcome.1.result?.map (·.map (·.value)) = some [some "ACME"] := by decide +kernel
  obtain ⟨found, hfound, hvalues⟩ := Option.map_eq_some_iff.mp hshown
  have hrun : outcome = (.done found, outcome.2) := Prod.ext (Ending.eq_done hfound) rfl
  obtain ⟨hsourced, -, -⟩ := ground_sourced {} hthreshold none [] ["Account", "Contact"] " Acme"
  obtain ⟨grounding, rfl, hsource⟩ := hsourced w none _ _ _ hrun
  have hvalue : grounding.value = some "ACME" := List.singleton_inj.mp hvalues
  rw [hterm] at hsource
  exact ⟨hthreshold, by decide, grounding, outcome.2, hrun, hvalue, hsource "ACME" hvalue⟩

end Decisions

end Grounder

end Soql
