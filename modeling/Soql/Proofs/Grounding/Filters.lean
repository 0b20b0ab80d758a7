import Soql.Proofs.Decimal.Notation
import Soql.Proofs.Grounding.Candidates
import Soql.Proofs.Grounding.SearchTerm
import Soql.Proofs.Grounding.Sources

namespace Soql

open Text Decimal Token Query

namespace Recognition

variable {value : String} {r : Recognition}

inductive Formed : Form → String → Prop
  | recordId {v : String} (h : ∀ c ∈ v.toList, c.isAlphanum = true ∨ c = '\n') : Formed .recordId v
  | dateLiteral {v : String} (h : v ∈ Vocabulary.dateLiterals) : Formed .dateLiteral v
  | dateValue {v : String} (h : isDate v.toList = true) : Formed .dateValue v
  | amount {f : Form} {x : Float} {v : String} (hf : f = .currency ∨ f = .number) (h : numberText x = .ok v) :
    Formed f v
  | address {f : Form} {v : String} (hf : f = .email ∨ f = .url) : Formed f v
  | phone {v : String} (h : ∀ c ∈ v.toList, isDecimal c = true) : Formed .phone v

theorem formed_amount {text : Except Failure String} {f : Form} {confidence : Float}
    (h : (do return ← (Except.ok (some ⟨f, ← text, value, confidence⟩) : Except Failure (Option Recognition))) =
      .ok (some r)) : r.form = f ∧ text = .ok r.normalized := by
  cases text with
  | error e => cases h
  | ok t =>
    cases h
    exact ⟨rfl, rfl⟩

theorem alphanum_of_idForm {s : List Char} (h : hasIdForm s = true) : ∀ c ∈ s, c.isAlphanum = true ∨ c = '\n' := by
  unfold hasIdForm at h
  dsimp only at h
  rw [Bool.and_eq_true, List.all_eq_true] at h
  obtain ⟨-, hall⟩ := h
  intro c hc
  split at hall
  · rename_i hlast
    rw [beq_iff_eq] at hlast
    by_cases hline : c = '\n'
    · exact .inr hline
    · refine .inl (hall c (List.mem_dropLast_of_mem_of_ne_getLast? hc ?_))
      rw [hlast]
      exact fun hsame => hline (Option.some.inj hsame)
  · exact .inl (hall c hc)

theorem dateWords_literals : ∀ pair ∈ Vocabulary.dateWords, pair.2 ∈ Vocabulary.dateLiterals := by
  decide

theorem of_formed (h : of value = .ok (some r)) : Formed r.form r.normalized := by
  unfold of at h
  dsimp only at h
  -- The forms are tried in turn; what the test of a form asks is what its value looks like.
  split at h
  · cases h
  split at h
  · rename_i hid
    cases h
    rw [Bool.and_eq_true] at hid
    exact .recordId (by simpa using alphanum_of_idForm hid.1)
  split at h
  · rename_i hliteral
    cases h
    exact .dateLiteral (by simpa using hliteral)
  split at h
  · rename_i date hdate
    cases h
    exact .dateLiteral (dateWords_literals _ (mem_of_lookup hdate))
  split at h
  · rename_i hdate
    cases h
    exact .dateValue (by simpa using hdate)
  split at h
  · split at h
    · cases h
    · obtain ⟨hform, htext⟩ := formed_amount h
      exact .amount (.inl hform) htext
  split at h
  · obtain ⟨hform, htext⟩ := formed_amount h
    exact .amount (.inr hform) htext
  split at h
  · cases h
    exact .address (.inl rfl)
  split at h
  · cases h
    refine .phone fun c hc => ?_
    simp at hc
    exact hc.2
  split at h
  · cases h
    exact .address (.inr rfl)
  · cases h

end Recognition

def usualFields : List String :=
  ["Id", "CreatedDate", "Amount", "Email", "Phone", "Website", "Priority", "Status", "Name"]

theorem isFieldName_usual {name : String} (h : name ∈ usualFields) : IsFieldName name := by
  have hall : ∀ name ∈ usualFields, Token.ofText name = .ok [word name] ∧
      ["NOT", "EXISTS", "SELECT"].contains (word name).upper = false := by decide +kernel
  exact ⟨(hall name h).1, (hall name h).2⟩

theorem same_text {s t : String} (h : s.toList = t.toList) : some s = some t :=
  congrArg some (String.toList_injective h)

namespace Grounding

/-- The filter is read as a single comparison on the field of the finding; where that asks for a value in quotes to be
equal, the quotes hold the value of the finding. -/
def AsksOne (x : Grounding) (object filter : String) : Prop :=
  ∃ c, ReadsAlone object filter c ∧ x.field = some c.field ∧
    (c.operator = .equal → c.value.toList.head? = some '\x27' → c.literals = x.value.toList)

/-- A listed value or an address is kept by a literal, and an amount is written without an exponent. -/
structure Fits (x : Grounding) : Prop where
  listed : x.kind = some .exact ∨ x.kind = some .fuzzy → ∀ v ∈ x.value, isKept v.toList = true
  address : x.kind = some .pattern → x.field = some "Email" ∨ x.field = some "Website" →
    ∀ v ∈ x.value, isKept v.toList = true
  amount : x.kind = some .pattern → x.field = some "Amount" → ∀ v ∈ x.value, 'e' ∉ v.toList

/-- A filter that is no clause of its own asks for one thing just when the value fits it. -/
def Apt (object : String) (x : Grounding) : Prop :=
  ∀ filter, x.filter = some filter → beginsWith filter "FROM" = false → (x.AsksOne object filter ↔ x.Fits)

theorem apt_of_filter {object filter : String} {x : Grounding} (hx : x.filter = some filter)
    (h : x.AsksOne object filter ↔ x.Fits) : x.Apt object := by
  rintro _ hfilter -
  rw [hx] at hfilter
  obtain rfl := Option.some.inj hfilter
  exact h

section Fits

variable {x : Grounding} {name v : String}

theorem fits_pattern (hkind : x.kind = some .pattern) (hx : x.field = some name) (hv : x.value = some v) :
    x.Fits ↔ (name = "Email" ∨ name = "Website" → isKept v.toList = true) ∧ (name = "Amount" → 'e' ∉ v.toList) := by
  constructor
  · intro h
    have haddress := h.address hkind
    have hamount := h.amount hkind
    simp only [hx, hv, Option.some.injEq, Option.mem_def, forall_eq'] at haddress hamount
    exact ⟨haddress, hamount⟩
  · rintro ⟨haddress, hamount⟩
    refine ⟨?_, ?_, ?_⟩
    · rw [hkind]
      rintro (h | h) <;> cases h
    · simpa [hx, hv] using fun _ => haddress
    · simpa [hx, hv] using fun _ => hamount

theorem fits_listed (hkind : x.kind = some .exact ∨ x.kind = some .fuzzy) (hv : x.value = some v) :
    x.Fits ↔ isKept v.toList = true := by
  have hother : x.kind ≠ some .pattern := by
    intro hpattern
    rw [hpattern] at hkind
    rcases hkind with h | h <;> cases h
  constructor
  · exact fun h => h.listed hkind v hv
  · intro h
    refine ⟨fun _ w hw => ?_, fun hpattern => absurd hpattern hother, fun hpattern => absurd hpattern hother⟩
    rw [hv] at hw
    exact Option.some.inj hw ▸ h

theorem fits_other (hkind : x.kind = some .synonym ∨ x.kind = some .verified) : x.Fits := by
  rcases hkind with h | h <;> constructor <;> simp [h]

end Fits

section Filters

variable {object field v : String} (hobject : IsObjectName object) {x : Grounding}

include hobject

theorem asksOne_ordinary {c : Comparison} (hc : c.Ordinary) (hx : x.field = some c.field)
    (hvalue : c.operator ≠ .equal ∨ c.value.toList.head? ≠ some '\x27') : x.AsksOne object c.text :=
  ⟨c, readsAlone_of_ordinary hobject hc, hx, fun hop hquote => absurd hquote (hvalue.resolve_left fun h => h hop)⟩

theorem asksOne_equal_iff (hfield : IsFieldName field) (hx : x.field = some field) (hv : x.value = some v) :
    x.AsksOne object (Grounder.equalityFilter field v) ↔ isKept v.toList = true := by
  have htext : Grounder.equalityFilter field v = Comparison.text ⟨field, .equal, quoted v⟩ := by
    apply String.toList_injective
    simp [Grounder.equalityFilter, Comparison.text, Operator.text, quoted]
  rw [htext]
  constructor
  · rintro ⟨c, hread, -, hvalue⟩
    rw [hv] at hvalue
    exact isKept_of_readsAlone hobject hfield hread hvalue
  · intro hkept
    refine ⟨_, readsAlone_quoted hobject hfield (.inl rfl) (isKept_iff.mp hkept).1, hx, ?_⟩
    intro _ _
    rw [hv]
    exact literalsOf_quoted hkept

/-- An amount asks for one thing just when no exponent is written: its letter would be left over. -/
theorem asksOne_amount_iff {x : Grounding} (hx : x.field = some "Amount")
    (hv : Positional v.toList ∨ Exponential v.toList) : x.AsksOne object ("Amount >= " ++ v) ↔ 'e' ∉ v.toList := by
  have hfield := isFieldName_usual (show "Amount" ∈ usualFields by decide)
  have htext : "Amount >= " ++ v = Comparison.text ⟨"Amount", .atLeast, v⟩ := by
    apply String.toList_injective
    simp [Comparison.text, Operator.text]
  rw [htext]
  rcases hv with hplain | hexponent
  · refine iff_of_true ?_ hplain.no_letter
    have hwhole := whole_positional hplain
    rw [String.ofList_toList] at hwhole
    have hvalue : Operator.Takes .atLeast v v := .token (hwhole.writes.lexes 0) (by decide)
    exact asksOne_ordinary hobject ⟨hfield, hvalue⟩ hx (.inl (by simp))
  · refine iff_of_false ?_ fun h => h hexponent.letter
    rintro ⟨c, ⟨q, hq, hfilter⟩, -⟩
    obtain ⟨ts, hts, hread⟩ := @compare_of_parse _ hobject "Amount" _ .atLeast hfield rfl hexponent.ends _ hq _
      hfilter
    obtain ⟨t, more, rfl, hkind⟩ := lexes_exponential hexponent hts
    obtain ⟨-, hclause⟩ := hread t _ rfl (.inr hkind)
    -- The letter would have to begin a clause.
    have hletter : (word "e").isWord clauseWords = false := by decide +kernel
    have hbegins : (word "e").isWord clauseWords = true := hclause (List.cons_ne_nil _ _)
    rw [hletter] at hbegins
    cases hbegins

end Filters

end Grounding

namespace Grounder

section Found

variable (g : Grounder) {objects : List SObject} {names : List String} {term candidate : String} {d : Decision}

/-- What a term may be found to be: nothing, something that is known without asking, or a record that a search for it
came upon. -/
inductive Found (objects : List SObject) (term : String) : Grounding → Prop
  | nothing (candidate : String) (evidence : List String) : Found objects term { candidate, evidence }
  | known {found : List Grounding} {x : Grounding} (h : g.known term objects = .ok found) (hx : x ∈ found) :
    Found objects term x
  | record (text : String) (r : Record) : Found objects term (g.ofRecord term (SearchTerm.sanitize term) text r)

inductive Leads (objects : List SObject) (term : String) : Decision → Prop
  | settled {x : Grounding} (h : g.Found objects term x) : Leads objects term (.settled x)
  | search {text : String} {names : List String} {x : Grounding} (h : g.Found objects term x) :
    Leads objects term (.search term (SearchTerm.sanitize term) text names x)

/-- All that is known of a term is told by its form, by a word, by a listed value or by a label. -/
theorem known_cases_of_mem {found : List Grounding} (h : g.known term objects = .ok found) {x : Grounding}
    (hx : x ∈ found) : (∃ r, Recognition.of term = .ok (some r) ∧ x = ofRecognition term r) ∨ x ∈ byWord term ∨
      x ∈ byValues g.fuzzyThreshold term objects ∨ ∃ o ∈ objects, x ∈ byLabel term o := by
  unfold known at h
  cases hform : Recognition.of term with
  | error e =>
    rw [hform] at h
    cases h
  | ok form =>
    rw [hform] at h
    cases h
    rw [List.mem_mergeSort, List.mem_append, List.mem_append, List.mem_append, List.mem_flatMap] at hx
    rcases hx with ((hx | hx) | hx) | hx
    · obtain ⟨r, rfl, rfl⟩ := Option.map_eq_some_iff.mp (Option.mem_toList.mp hx)
      exact .inl ⟨r, rfl, rfl⟩
    · exact .inr (.inl hx)
    · exact .inr (.inr (.inl hx))
    · exact .inr (.inr (.inr hx))

theorem decideOn_leads (h : g.decideOn objects names candidate = .ok d) : g.Leads objects (trimmed candidate) d := by
  unfold decideOn at h
  dsimp only at h
  split at h
  case isTrue =>
    cases h
    exact .settled (.nothing candidate [])
  case isFalse =>
    cases hknown : g.known (trimmed candidate) objects with
    | error e =>
      rw [hknown] at h
      cases h
    | ok found =>
      have hbest (y : Grounding) (hy : g.Found objects (trimmed candidate) y) :
          g.Found objects (trimmed candidate) (found.head?.getD y) := by
        cases found with
        | nil => exact hy
        | cons x rest => exact .known hknown List.mem_cons_self
      rw [hknown] at h
      -- The best is taken when it is sure, or when a search is not possible; else it is what a search falls back on.
      change (if found.head?.any (fun b => b.confidence > g.confident) = true then _ else
        if (!g.searches || !SearchTerm.isValid (SearchTerm.sanitize (trimmed candidate))) = true then _ else _) =
        Except.ok d at h
      split at h
      · cases h
        exact .settled (hbest _ (.nothing _ _))
      · split at h
        · cases h
          exact .settled (hbest _ (.nothing _ _))
        · cases h
          exact .search (hbest _ (.nothing _ _))

theorem conclude_found (hd : g.Leads objects term d) (reply : Option (Reply (List Record))) :
    g.Found objects term (g.conclude d reply) := by
  cases hd with
  | settled h => exact h
  | search h =>
    cases reply with
    | none => exact h
    | some reply =>
      cases reply with
      | answered records =>
        unfold conclude
        dsimp only
        split
        · exact .record _ _
        · exact h
      | failed f => exact h
      | silent => exact h

/-- Decisions come to findings on the terms they were made on, whatever the replies. -/
theorem concludeAll_found {candidates : List String} {decisions : List Decision}
    (h : List.Forall₂ (fun c d => g.Leads objects (trimmed c) d) candidates decisions)
    (replies : List (Reply (List Record))) :
    ∀ x ∈ g.concludeAll decisions replies, ∃ c ∈ candidates, g.Found objects (trimmed c) x := by
  induction h generalizing replies with
  | nil => exact nofun
  | @cons c d candidates decisions hd _ ih =>
    have hstep (reply : Option (Reply (List Record))) (others : List (Reply (List Record))) :
        ∀ x ∈ g.conclude d reply :: g.concludeAll decisions others,
          ∃ c' ∈ c :: candidates, g.Found objects (trimmed c') x := by
      rw [List.forall_mem_cons]
      refine ⟨⟨c, List.mem_cons_self, g.conclude_found hd reply⟩, ?_⟩
      intro x hx
      obtain ⟨c', hc', hfound⟩ := ih others x hx
      exact ⟨c', List.mem_cons_of_mem c hc', hfound⟩
    unfold concludeAll
    split
    · exact hstep _ _
    · exact hstep _ _

/-- However the searches are answered, what comes of candidates is found for them. -/
theorem ground_found (tenant : Tenant) (objects : List SObject) (scope candidates : List String) :
    (g.ground tenant objects scope candidates).Only
      (fun found => ∀ x ∈ found, ∃ c ∈ candidates, g.Found objects (trimmed c) x) (fun _ => True) := by
  have hdecide : ∀ c ∈ candidates, ∀ d, g.decideOn objects (searchScope objects scope) c = .ok d →
      g.Leads objects (trimmed c) d := fun c _ d hd => g.decideOn_leads hd
  unfold ground
  dsimp only
  split
  · exact g.finish_of hdecide (fun _ _ _ _ => trivial) fun _ h => g.concludeAll_found h []
  · exact .ask fun replies => g.finish_of hdecide (fun _ _ _ _ => trivial) fun _ h => g.concludeAll_found h replies

end Found

variable (g : Grounder) {object : String} (hobject : IsObjectName object)

section Sources

include hobject

theorem pattern_quoted {x : Grounding} {name v : String} (husual : name ∈ usualFields) (hamount : name ≠ "Amount")
    (hkept : ¬(name = "Email" ∨ name = "Website") → isKept v.toList = true) (hkind : x.kind = some .pattern)
    (hfield : x.field = some name) (hv : x.value = some v) (hfilter : x.filter = some (equalityFilter name v)) :
    x.Apt object := by
  refine Grounding.apt_of_filter hfilter ?_
  rw [Grounding.asksOne_equal_iff hobject (isFieldName_usual husual) hfield hv,
    Grounding.fits_pattern hkind hfield hv]
  tauto

theorem pattern_ordinary {x : Grounding} {c : Comparison} {v : String} (hc : c.Ordinary)
    (hname : c.field ∉ ["Email", "Website", "Amount"]) (hkind : x.kind = some .pattern)
    (hfield : x.field = some c.field) (hv : x.value = some v) (hfilter : x.filter = some c.text)
    (hvalue : c.operator ≠ .equal ∨ c.value.toList.head? ≠ some '\x27') : x.Apt object := by
  refine Grounding.apt_of_filter hfilter (iff_of_true (Grounding.asksOne_ordinary hobject hc hfield hvalue) ?_)
  rw [Grounding.fits_pattern hkind hfield hv]
  simp only [List.mem_cons, List.not_mem_nil, or_false, not_or] at hname
  tauto

omit hobject in
theorem ordinary_dateLiteral {v : String} (h : v ∈ Vocabulary.dateLiterals) :
    Comparison.Ordinary ⟨"CreatedDate", .equal, v⟩ ∧ v.toList.head? ≠ some '\x27' := by
  have hall : ∀ v ∈ Vocabulary.dateLiterals, Token.ofText v = .ok [word v] ∧ (word v).upper = v ∧
      isDateName v = true ∧ v.toList.head? ≠ some '\x27' := by decide +kernel
  obtain ⟨htoken, hupper, hdate, hhead⟩ := hall v h
  have hvalue : ScalarText v v := by
    have hname := ScalarText.name htoken (by rw [hupper, hdate, Bool.or_true])
    rwa [hupper] at hname
  exact ⟨⟨isFieldName_usual (show "CreatedDate" ∈ usualFields by decide), hvalue⟩, hhead⟩

omit hobject in
theorem ordinary_dateValue {v : String} (h : Recognition.isDate v.toList = true) :
    Comparison.Ordinary ⟨"CreatedDate", .equal, v⟩ ∧ v.toList.head? ≠ some '\x27' := by
  unfold Recognition.isDate at h
  rw [Bool.and_eq_true, beq_iff_eq] at h
  obtain ⟨hlength, hshape⟩ := h
  cases hv : v.toList with
  | nil =>
    rw [hv] at hlength
    cases hlength
  | cons c body =>
    rw [hv] at hlength hshape
    have hc : isDecimal c = true := ((hasShape_cons '0' c _ body).mp hshape).1
    have hdate : dateLength (c :: body) = some 10 := by
      rw [dateLength, if_pos hshape, List.drop_of_length_le (by omega)]
      rfl
    have hbody : body.length = 9 := by simpa using hlength
    have hwhole : Token.Whole ⟨.date, v⟩ := by
      refine ⟨c, body, ?_, ?_⟩
      · rw [← hv, String.ofList_toList]
      · rw [hbody]
        exact start_iff.mpr (.date (bare_of_decimal hc) hc hdate)
    have hvalue : ScalarText v v := .token (hwhole.writes.lexes 0) (by decide)
    refine ⟨⟨isFieldName_usual (show "CreatedDate" ∈ usualFields by decide), hvalue⟩, ?_⟩
    rw [List.head?_cons, Ne, Option.some.injEq]
    exact (bare_of_decimal hc).quote

omit hobject in
/-- A pattern of characters that no literal treats in a special way. -/
theorem ordinary_like {name v : String} (hname : IsFieldName name) (hv : isKept v.toList = true) :
    Comparison.Ordinary ⟨name, .like, quoted v⟩ :=
  ⟨hname, scalar_quoted (isKept_iff.mp hv).1⟩

theorem ofRecognition_apt (candidate : String) {r : Recognition} (h : Recognition.Formed r.form r.normalized) :
    (ofRecognition candidate r).Apt object := by
  obtain ⟨form, v, given, confidence⟩ := r
  cases h with
  | recordId h =>
    have hkept : isKept v.toList = true := isKept_of_free fun c hc => by
      rcases h c hc with hletter | rfl
      · constructor <;> rintro rfl <;> cases hletter
      · decide
    exact pattern_quoted hobject (show "Id" ∈ usualFields by decide) (by decide) (fun _ => hkept) rfl rfl rfl
      (same_text (by simp [equalityFilter]))
  | dateLiteral h =>
    obtain ⟨hc, hhead⟩ := ordinary_dateLiteral h
    exact pattern_ordinary hobject hc (by simp) rfl rfl rfl (same_text (by simp [Comparison.text, Operator.text]))
      (.inr hhead)
  | dateValue h =>
    obtain ⟨hc, hhead⟩ := ordinary_dateValue h
    exact pattern_ordinary hobject hc (by simp) rfl rfl rfl (same_text (by simp [Comparison.text, Operator.text]))
      (.inr hhead)
  | amount hf h =>
    -- An amount with its sign and a number come with the same filter.
    rcases hf with rfl | rfl <;>
    · refine Grounding.apt_of_filter rfl ?_
      rw [Grounding.fits_pattern rfl rfl rfl]
      exact (Grounding.asksOne_amount_iff hobject rfl (numberText_cases h)).trans (by simp)
  | address hf =>
    rcases hf with rfl | rfl
    · exact pattern_quoted hobject (show "Email" ∈ usualFields by decide) (by decide) (by simp) rfl rfl rfl
        (same_text (by simp [equalityFilter]))
    · exact pattern_quoted hobject (show "Website" ∈ usualFields by decide) (by decide) (by simp) rfl rfl rfl
        (same_text (by simp [equalityFilter]))
  | phone h =>
    -- Nothing but digits and percent signs stands between the quotes.
    have hkept : isKept ("%" ++ afterChars (v.length - 10) v ++ "%").toList = true := by
      refine isKept_of_free fun c hc => ?_
      have hcases : c = '%' ∨ isDecimal c = true := by
        simp only [afterChars, String.toList_append, String.toList_ofList, List.mem_append] at hc
        rcases hc with (hc | hc) | hc
        · exact .inl (List.mem_singleton.mp hc)
        · exact .inr (h c (List.mem_of_mem_drop hc))
        · exact .inl (List.mem_singleton.mp hc)
      rcases hcases with rfl | hc
      · decide
      · constructor <;> rintro rfl <;> exact absurd hc (by decide)
    have hc := ordinary_like (isFieldName_usual (show "Phone" ∈ usualFields by decide)) hkept
    exact pattern_ordinary hobject hc (by simp) rfl rfl rfl
      (same_text (by simp [Comparison.text, Operator.text, quoted])) (.inl (by simp))

omit hobject in
/-- A filter that begins another clause is left aside, and so is a finding without a filter. -/
theorem objectGrounding_apt (candidate name evidence : String) (kind : GroundingKind) :
    (objectGrounding candidate name evidence kind).Apt object := by
  rintro filter hfilter hfrom
  obtain rfl := Option.some.inj hfilter
  rw [beginsWith, String.toList_append] at hfrom
  cases hfrom

theorem keywordGrounding_apt {term low name value : String} {confidence : Float} (husual : name ∈ usualFields)
    (hkept : isKept value.toList = true) : (keywordGrounding term low name value confidence).Apt object := by
  refine Grounding.apt_of_filter rfl (iff_of_true ?_ (Grounding.fits_other (.inl rfl)))
  exact (Grounding.asksOne_equal_iff hobject (isFieldName_usual husual) rfl rfl).mpr hkept

theorem byWord_apt {term : String} {x : Grounding} (h : x ∈ byWord term) : x.Apt object := by
  have hwords : ∀ pair ∈ Vocabulary.priorityWords ++ Vocabulary.statusWords, isKept pair.2.toList = true := by
    decide +kernel
  unfold byWord at h
  dsimp only at h
  rcases List.mem_append.mp h with h | hstate
  · rcases List.mem_append.mp h with hobject' | hpriority
    · split at hobject'
      · rw [List.mem_singleton.mp hobject']
        exact objectGrounding_apt _ _ _ _
      · cases hobject'
    · obtain ⟨value, hvalue, rfl⟩ := List.mem_map.mp hpriority
      have hmem := mem_of_lookup (Option.mem_toList.mp hvalue)
      exact keywordGrounding_apt hobject (by decide) (hwords _ (List.mem_append_left _ hmem))
  · obtain ⟨value, hvalue, rfl⟩ := List.mem_map.mp hstate
    have hmem := mem_of_lookup (Option.mem_toList.mp hvalue)
    exact keywordGrounding_apt hobject (by decide) (hwords _ (List.mem_append_right _ hmem))

theorem byValue_apt {threshold : Float} {term value : String} {o : SObject} {f : Field} (hname : IsFieldName f.name)
    {x : Grounding} (h : byValue threshold term o f value = some x) : x.Apt object := by
  have hlisted {y : Grounding} (hkind : y.kind = some .exact ∨ y.kind = some .fuzzy) (hfield : y.field = some f.name)
      (hv : y.value = some value) (hfilter : y.filter = some (equalityFilter f.name value)) : y.Apt object := by
    refine Grounding.apt_of_filter hfilter ?_
    rw [Grounding.asksOne_equal_iff hobject hname hfield hv, Grounding.fits_listed hkind hv]
  unfold byValue at h
  dsimp only at h
  split at h
  · cases h
    exact hlisted (.inl rfl) rfl rfl rfl
  · split at h
    · cases h
    · cases h
      exact hlisted (.inr rfl) rfl rfl rfl

omit hobject in
theorem byLabel_apt {term : String} {o : SObject} {x : Grounding} (h : x ∈ byLabel term o) : x.Apt object := by
  unfold byLabel at h
  dsimp only at h
  rcases List.mem_append.mp h with hsame | hfield
  · split at hsame
    · rw [List.mem_singleton.mp hsame]
      exact objectGrounding_apt _ _ _ _
    · cases hsame
  · obtain ⟨f, -, rfl⟩ := List.mem_map.mp hfield
    exact nofun

theorem ofRecord_apt (term text : String) (r : Record) :
    (g.ofRecord term (SearchTerm.sanitize term) text r).Apt object := by
  have hkept : isKept (SearchTerm.sanitize term ++ "%").toList = true := by
    refine isKept_of_free fun c hc => ?_
    have hspecial : SearchTerm.special.contains c = false := by
      rw [String.toList_append] at hc
      rcases List.mem_append.mp hc with hc | hc
      · exact (SearchTerm.sanitize_harmless term).1.plain c hc
      · rw [List.mem_singleton.mp hc]
        decide
    constructor <;> rintro rfl <;> cases hspecial
  have hc := ordinary_like (isFieldName_usual (show "Name" ∈ usualFields by decide)) hkept
  have htext : (g.ofRecord term (SearchTerm.sanitize term) text r).filter =
      some (Comparison.text ⟨"Name", .like, quoted (SearchTerm.sanitize term ++ "%")⟩) :=
    same_text (by simp [Comparison.text, Operator.text, quoted])
  refine Grounding.apt_of_filter htext (iff_of_true ?_ (Grounding.fits_other (.inr rfl)))
  exact Grounding.asksOne_ordinary hobject hc rfl (.inl (by simp))

theorem found_apt {objects : List SObject} (hfields : ∀ o ∈ objects, ∀ f ∈ o.fields, IsFieldName f.name)
    {term : String} {x : Grounding} (h : g.Found objects term x) : x.Apt object := by
  cases h with
  | nothing => exact nofun
  | record text r => exact ofRecord_apt g hobject term text r
  | known h hx =>
    rcases g.known_cases_of_mem h hx with ⟨r, hr, rfl⟩ | hx | hx | ⟨o, -, hx⟩
    · exact ofRecognition_apt hobject term (Recognition.of_formed hr)
    · exact byWord_apt hobject hx
    · obtain ⟨o, ho, hx⟩ := List.mem_flatMap.mp hx
      obtain ⟨f, hf, hx⟩ := List.mem_flatMap.mp hx
      obtain ⟨value, -, hx⟩ := List.mem_filterMap.mp hx
      exact byValue_apt hobject (hfields o ho f hf) hx
    · exact byLabel_apt hx

/-- Whatever is known of a term, and whatever candidates are found to be, a filter that begins no other clause is read
as a single comparison on the field of the finding, with the value in its quotes if it asks for one, just when the
value fits it. -/
theorem ground_asksOne {objects : List SObject} (hfields : ∀ o ∈ objects, ∀ f ∈ o.fields, IsFieldName f.name)
    (tenant : Tenant) (scope candidates : List String) :
    (∀ term found, g.known term objects = .ok found → ∀ x ∈ found, x.Apt object) ∧
      (g.ground tenant objects scope candidates).Only (fun found => ∀ x ∈ found, x.Apt object) (fun _ => True) := by
  constructor
  · intro term found hknown x hx
    exact g.found_apt hobject hfields (.known hknown hx)
  · refine (g.ground_found tenant objects scope candidates).weaken ?_ fun _ h => h
    intro found hfound x hx
    obtain ⟨c, -, h⟩ := hfound x hx
    exact g.found_apt hobject hfields h

end Sources

section Runs

/-- What is settled without a search is found. -/
theorem ground_of_settled (tenant : Tenant) (objects : List SObject) (scope : List String) (candidate : String)
    (p : Grounding → Bool)
    (h : (g.decideOn objects (searchScope objects scope) candidate).toOption.any (fun d => match d with
      | .settled x => p x
      | .search .. => false) = true) : ∃ x, g.ground tenant objects scope [candidate] = .done [x] ∧ p x = true := by
  obtain ⟨d, hd, hp⟩ := exists_ok_of_any h
  rw [ground_one, hd]
  cases d with
  | settled x => exact ⟨x, rfl, hp⟩
  | search => cases hp

def isReadAlone (object condition : String) : Bool :=
  (parse (selectIds object condition)).toOption.any fun q => match q.filter with
    | some (.leaf (.compare _)) => true
    | _ => false

theorem isReadAlone_of_asksOne {x : Grounding} {filter : String} (h : x.AsksOne object filter) :
    isReadAlone object filter = true := by
  obtain ⟨c, ⟨q, hq, hfilter⟩, -⟩ := h
  rw [isReadAlone, hq, Except.toOption, Option.any_some, hfilter]

def account : SObject where
  name := "Account"
  category := some "business_core"
  fields := [{ name := "Rating", values := ["Hot", "Warm' OR Name != 'Cold"] }]

theorem isObjectName_account : IsObjectName "Account" :=
  ⟨whole_word (by decide), by decide⟩

theorem isFieldName_account : ∀ o ∈ [account], ∀ f ∈ o.fields, IsFieldName f.name := by
  have hrating : IsFieldName "Rating" := ⟨by decide +kernel, by decide +kernel⟩
  simpa [account] using hrating

theorem ground_asksOne_hot : ∃ x, ({} : Grounder).ground none [account] [] ["hot"] = .done [x] ∧
    x.filter = some "Rating = 'Hot'" ∧ x.Fits ∧ x.AsksOne "Account" "Rating = 'Hot'" := by
  obtain ⟨x, hground, hx⟩ := ground_of_settled {} none [account] [] "hot"
    (fun x => x.filter == some "Rating = 'Hot'" && x.kind == some .exact && x.value == some "Hot") (by decide +kernel)
  simp only [Bool.and_eq_true, beq_iff_eq] at hx
  obtain ⟨⟨hfilter, hkind⟩, hvalue⟩ := hx
  have hfits : x.Fits := (Grounding.fits_listed (.inl hkind) hvalue).mpr (by decide)
  have honly := (ground_asksOne {} isObjectName_account isFieldName_account none [] ["hot"]).2
  rw [hground] at honly
  cases honly with
  | done hall =>
    have hasks := hall x List.mem_cons_self _ hfilter (by decide)
    exact ⟨x, hground, hfilter, hfits, hasks.mpr hfits⟩

theorem ground_strays {objects : List SObject} {candidate filter : String}
    (h : (({} : Grounder).decideOn objects (searchScope objects []) candidate).toOption.any (fun d => match d with
      | .settled x => x.filter == some filter
      | .search .. => false) = true) (hfilter : isReadAlone object filter = false) :
    ∃ x, ({} : Grounder).ground none objects [] [candidate] = .done [x] ∧ x.filter = some filter ∧
      ¬x.AsksOne object filter := by
  obtain ⟨x, hground, hx⟩ := ground_of_settled {} none objects [] candidate (fun x => x.filter == some filter) h
  refine ⟨x, hground, beq_iff_eq.mp hx, fun hasks => ?_⟩
  rw [isReadAlone_of_asksOne hasks] at hfilter
  cases hfilter

/-- A quote in a listed value or an address ends the literal before the value does, and a small amount is written with
an exponent that no query knows. -/
theorem filters_astray :
    (∃ x, ({} : Grounder).ground none [account] [] ["warm' or name != 'cold"] = .done [x] ∧
      x.filter = some "Rating = 'Warm' OR Name != 'Cold'" ∧
      ¬x.AsksOne "Account" "Rating = 'Warm' OR Name != 'Cold'") ∧
    (∃ x, ({} : Grounder).ground none [] [] ["o'brien@example.com"] = .done [x] ∧
      x.filter = some "Email = 'o'brien@example.com'" ∧ ¬x.AsksOne "Contact" "Email = 'o'brien@example.com'") ∧
    ∃ x, ({} : Grounder).ground none [] [] ["0.00001"] = .done [x] ∧
      x.filter = some "Amount >= 1e-05" ∧ ¬x.AsksOne "Opportunity" "Amount >= 1e-05" := by
  refine ⟨?_, ?_, ?_⟩
  · exact ground_strays (by decide +kernel) (by decide +kernel)
  · exact ground_strays (by decide +kernel) (by decide +kernel)
  · exact ground_strays (by decide +kernel) (by decide +kernel)

end Runs

end Grounder

end Soql
