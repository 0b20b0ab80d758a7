import Soql.Context.Request
import Soql.Proofs.Text.Pattern

namespace Soql.Request

open Text Text.Pattern

def AllTrimmed (texts : List String) : Prop :=
  ∀ s ∈ texts, trimmed s = s

theorem trimmed_of_word {s : String} (h : ∀ c ∈ s.toList, isWord c = true) : trimmed s = s :=
  trimmed_eq_self fun c hc => isBlank_of_isWord (h c hc)

theorem mentionedValues_trimmed (request : String) : AllTrimmed (mentionedValues request) := by
  intro s hs
  obtain ⟨w, hw, rfl⟩ := List.mem_map.mp hs
  have hlisted : ∀ w ∈ valueWords, trimmed (capitalized w) = capitalized w := by decide
  exact hlisted w (List.contains_iff_mem.mp (List.mem_filter.mp hw).2)

/-- The company is the only thing that is kept of a phrase about it. -/
theorem companyPhrases_keeps : ∀ phrase ∈ companyPhrases, phrase.Keeps isWord := by
  have hword : (keep word).Keeps isWord := ⟨⟨trivial, trivial⟩, fun _ hc => hc, fun _ hc => hc⟩
  have hblanks : blanks.Keeps isWord := ⟨trivial, trivial⟩
  have honeOf : ∀ words, (oneOf words).Keeps isWord := by
    intro words
    apply keeps_anyOf
    intro part hpart
    obtain ⟨w, -, rfl⟩ := List.mem_map.mp hpart
    exact keeps_anyCase w
  have hplural : ∀ w ending, (seq (anyCase w) (maybe (anyCase ending))).Keeps isWord :=
    fun w ending => ⟨keeps_anyCase w, keeps_anyCase ending⟩
  have hobject : ∀ more, (∀ part ∈ more, part.Keeps isWord) → (salesObject more).Keeps isWord := by
    intro more hmore
    apply keeps_anyOf
    simp only [List.forall_mem_append, List.forall_mem_cons, List.not_mem_nil, false_implies, implies_true,
      and_true]
    exact ⟨⟨hplural "deal" "s", hplural "account" "s", ⟨keeps_anyCase _, honeOf _⟩, hplural "case" "s"⟩, hmore⟩
  simp only [companyPhrases, List.forall_mem_cons, List.not_mem_nil, false_implies, implies_true, and_true]
  constructor
  · apply keeps_row
    simp only [List.forall_mem_cons, List.not_mem_nil, false_implies, implies_true, and_true]
    refine ⟨honeOf _, hblanks, hword, hblanks, hobject _ ?_⟩
    simpa using hplural "contact" "s"
  · apply keeps_row
    simp only [List.forall_mem_cons, List.not_mem_nil, false_implies, implies_true, and_true]
    exact ⟨hword, hblanks, hobject [] (fun _ h => by cases h), hblanks, honeOf _⟩

theorem companies_trimmed (request : String) : AllTrimmed (companies request) := by
  intro s hs
  obtain ⟨phrase, hphrase, hs⟩ := List.mem_flatMap.mp (List.mem_filter.mp hs).1
  obtain ⟨found, hfound, hkept⟩ := List.mem_filterMap.mp hs
  exact trimmed_of_word (mem_findAll (companyPhrases_keeps phrase hphrase) hfound s (List.mem_of_mem_head? hkept))

theorem quotations_trimmed (request : String) : AllTrimmed (quotations request) := by
  intro s hs
  obtain ⟨quoted, -, rfl⟩ := List.mem_map.mp hs
  exact trimmed_trimmed quoted

theorem capitals_trimmed (request : String) : AllTrimmed (capitals request) := by
  intro s hs
  obtain ⟨run, hrun, rfl⟩ := List.mem_map.mp (List.mem_filter.mp hs).1
  apply trimmed_of_word
  intro c hc
  rw [String.toList_ofList] at hc
  -- A word is a piece of the text between characters that are in no word.
  have hpiece := (List.mem_filter.mp (List.mem_filter.mp hrun).1).1
  simpa using mem_pieces_not_sep hpiece hc

/-- No blanks stand at the ends of a value that a request mentions. -/
theorem values_trimmed (request : String) : AllTrimmed (terms request).values := by
  intro s hs
  simp only [terms, List.mem_eraseDups, List.mem_append] at hs
  rcases hs with ((hmem | hmem) | hmem) | hmem
  · exact mentionedValues_trimmed request s hmem
  · exact companies_trimmed request s hmem
  · exact quotations_trimmed request s hmem
  · exact capitals_trimmed request s hmem

end Soql.Request
