import Soql.Grounding.SearchTerm
import Soql.Proofs.Text.Rename
import Soql.Proofs.Text.Runs

namespace Soql.SearchTerm

open Text Token

section Letters

def operatorLetters : List Char :=
  ['a', 'n', 'd', 'o', 'r', 't']

theorem lowerRows_letters : ∀ row ∈ lowerRows, ∀ a ∈ operatorLetters,
    (a.toNat : Int) < row.1 + row.2.2.2 ∨ (row.2.1 : Int) + row.2.2.2 < a.toNat := by
  have hall : (lowerRows.all fun row => operatorLetters.all fun a =>
      decide ((a.toNat : Int) < row.1 + row.2.2.2 ∨ (row.2.1 : Int) + row.2.2.2 < a.toNat)) := by
    decide
  intro row hrow a ha
  exact of_decide_eq_true (List.all_eq_true.mp (List.all_eq_true.mp hall row hrow) a ha)

theorem foldPairs_letters : ∀ pair ∈ foldPairs, Char.ofNat pair.2 ∉ operatorLetters := by
  decide

theorem letter_bounds {a : Char} (ha : a ∈ operatorLetters) : 0 < a.toNat ∧ a.toNat < 0x80 := by
  have hall : (operatorLetters.all fun a => decide (0 < a.toNat ∧ a.toNat < 0x80)) := by decide
  exact of_decide_eq_true (List.all_eq_true.mp hall a ha)

/-- Beyond ASCII no character has a letter of an operator as its lower case. -/
theorem shifted_ne_letter {n : Nat} (hn : 0x80 ≤ n) {a : Char} (ha : a ∈ operatorLetters) :
    shifted lowerRows n ≠ a.toNat := by
  have hletter := letter_bounds ha
  unfold shifted
  split
  case h_1 low high step shift hrow =>
    have hmem := List.mem_of_find?_eq_some hrow
    have hfound := List.find?_some hrow
    simp only [Bool.and_eq_true, decide_eq_true_eq] at hfound
    have hbounds : (a.toNat : Int) < low + shift ∨ (high : Int) + shift < a.toNat :=
      lowerRows_letters _ hmem a ha
    omega
  case h_2 => omega

theorem ascii_of_lowerChar {c : Char} (h : lowerChar c ∈ operatorLetters) : c.toNat < 0x80 := by
  by_contra hc
  rw [lowerChar, if_neg hc] at h
  split at h
  case isTrue => revert h; decide
  case isFalse =>
    have hpos := (letter_bounds h).1
    rcases toNat_ofNat_or (shifted lowerRows c.toNat) with hsame | hzero
    · exact shifted_ne_letter (by omega) h hsame.symm
    · omega

theorem ascii_of_fold {c : Char} (h : fold c ∈ operatorLetters) : c.toNat < 0x80 := by
  unfold fold at h
  simp only at h
  split at h
  · rename_i n hn
    obtain ⟨before, after, hpairs, -⟩ := List.lookup_eq_some_iff.mp hn
    have hmem : ((lowerChar c).toNat, n) ∈ foldPairs := by
      rw [hpairs]
      simp
    exact absurd h (foldPairs_letters _ hmem)
  · exact ascii_of_lowerChar h

/-- What folds to a letter of an operator is that letter in either case, and a word character. -/
theorem of_fold_letter {c : Char} (h : fold c ∈ operatorLetters) :
    c.toLower = fold c ∧ isWord c = true := by
  have hall := of_ascii (p := fun c => !operatorLetters.contains (fold c) ||
    (c.toLower == fold c && isWord c)) (by decide) (ascii_of_fold h)
  simpa [h] using hall

theorem of_lowerChar_letter {c : Char} (h : lowerChar c ∈ operatorLetters) :
    fold c = lowerChar c ∧ isWord c = true := by
  have hall := of_ascii (p := fun c => !operatorLetters.contains (lowerChar c) ||
    (fold c == lowerChar c && isWord c)) (by decide) (ascii_of_lowerChar h)
  simpa [h] using hall

/-- Letters of operators in lower case come from the same letters one by one. -/
theorem lowerAfter_letters {cased : Bool} {w o : List Char} (h : lowerAfter cased w = o)
    (ho : ∀ a ∈ o, a ∈ operatorLetters) : w.map lowerChar = o := by
  induction w generalizing cased o with
  | nil => exact h
  | cons c w ih =>
    subst h
    rw [lowerAfter] at ho ⊢
    obtain ⟨hhere, hrest⟩ := List.forall_mem_append.mp ho
    rw [List.map_cons, ih rfl hrest]
    split at hhere
    case isTrue hsigma =>
      split at hhere <;> exact absurd (hhere _ List.mem_cons_self) (by decide)
    case isFalse hsigma =>
      rw [if_neg hsigma]
      unfold lowerRun at hhere ⊢
      split at hhere
      case isTrue =>
        exact absurd (hhere _ List.mem_cons_self) (by decide)
      case isFalse hdotted =>
        rw [if_neg hdotted]
        rfl

end Letters

section Operators

def isOperator (r : List Char) : Bool :=
  operators.any fun o => o.length == r.length && beginsFolded o r

theorem operators_letters : ∀ o ∈ operators, o ≠ [] ∧ ∀ a ∈ o, fold a ∈ operatorLetters := by
  have hall : ∀ o ∈ operators, o ≠ [] ∧ (o.all fun a => operatorLetters.contains (fold a)) := by
    decide
  intro o ho
  obtain ⟨hne, hfold⟩ := hall o ho
  exact ⟨hne, fun a ha => by simpa using List.all_eq_true.mp hfold a ha⟩

theorem isWord_of_sameFolded {a c : Char} (ha : fold a ∈ operatorLetters) (h : sameFolded a c = true) :
    isWord c = true := by
  have hfold : fold a = fold c := by
    rw [sameFolded, Bool.or_eq_true, beq_iff_eq, beq_iff_eq] at h
    rcases h with rfl | h
    · rfl
    · exact h
  exact (of_fold_letter (hfold ▸ ha)).2

/-- A text begins with an operator in as many word characters. -/
theorem isWord_of_beginsFolded {o s : List Char} (ho : ∀ a ∈ o, fold a ∈ operatorLetters)
    (h : beginsFolded o s = true) : ∀ c ∈ s.take o.length, isWord c = true := by
  induction o generalizing s with
  | nil => simp
  | cons a o ih =>
    cases s with
    | nil => simp
    | cons c s =>
      rw [beginsFolded, Bool.and_eq_true] at h
      rw [List.length_cons, List.take_succ_cons, List.forall_mem_cons]
      exact ⟨isWord_of_sameFolded (ho a (by simp)) h.1, ih (fun b hb => ho b (by simp [hb])) h.2⟩

theorem beginsFolded_append_of_le {o r s : List Char} (h : o.length ≤ r.length) :
    beginsFolded o (r ++ s) = beginsFolded o r := by
  induction o generalizing r with
  | nil => rfl
  | cons a o ih =>
    cases r with
    | nil => simp at h
    | cons c r => rw [List.cons_append, beginsFolded, beginsFolded, ih (by simpa using h)]

theorem beginsFolded_of_fold {o w : List Char} (h : w.map fold = o.map fold) :
    beginsFolded o w = true := by
  induction o generalizing w with
  | nil => rfl
  | cons a o ih =>
    obtain ⟨c, w, rfl, hc, hw⟩ := List.map_eq_cons_iff.mp h
    rw [beginsFolded, Bool.and_eq_true, sameFolded, hc]
    exact ⟨by simp, ih hw⟩

theorem operators_lower : ∀ u ∈ ["and", "or", "not"].map String.toList,
    (∀ a ∈ u, a ∈ operatorLetters) ∧ ∃ o ∈ operators, o.map fold = u := by
  have hall : ∀ u ∈ ["and", "or", "not"].map String.toList,
      (u.all operatorLetters.contains) ∧ ∃ o ∈ operators, o.map fold = u := by
    decide
  intro u hu
  obtain ⟨hletters, hfold⟩ := hall u hu
  exact ⟨fun a ha => by simpa using List.all_eq_true.mp hletters a ha, hfold⟩

/-- A text with the lower case of an operator is that operator, made of word characters. -/
theorem isOperator_of_lower {w : List Char}
    (h : lowerChars w ∈ ["and", "or", "not"].map String.toList) :
    isOperator w = true ∧ w ≠ [] ∧ ∀ c ∈ w, isWord c = true := by
  obtain ⟨hletters, o, ho, hfold⟩ := operators_lower _ h
  have hmap : w.map lowerChar = lowerChars w := lowerAfter_letters rfl hletters
  have hchar : ∀ c ∈ w, fold c = lowerChar c ∧ isWord c = true := by
    intro c hc
    apply of_lowerChar_letter
    apply hletters
    rw [← hmap]
    exact List.mem_map_of_mem hc
  have hsame : w.map fold = o.map fold := by
    rw [hfold, ← hmap]
    exact List.map_congr_left fun c hc => (hchar c hc).1
  have hlength : o.length = w.length := by
    have hlen := congrArg List.length hsame
    simpa using hlen.symm
  refine ⟨?_, ?_, fun c hc => (hchar c hc).2⟩
  · rw [isOperator, List.any_eq_true]
    refine ⟨o, ho, ?_⟩
    rw [hlength, beginsFolded_of_fold hsame]
    simp
  · rintro rfl
    have hempty : o = [] := by simpa using hlength
    exact (operators_letters o ho).1 hempty

section WholeRun

variable {r s : List Char} (hr : ∀ c ∈ r, Text.isWord c = true) (hs : Stops (!Text.isWord ·) s)

include hs in
/-- An operator at the start of a whole run lies in the run. -/
theorem length_le_of_begins {o : List Char} (ho : o ∈ operators)
    (h : beginsFolded o (r ++ s) = true) : o.length ≤ r.length := by
  have hword := isWord_of_beginsFolded (operators_letters o ho).2 h
  have hlen := length_le_of_beginsFolded h
  by_contra hlt
  cases s with
  | nil =>
    simp only [List.append_nil] at hlen
    exact hlt hlen
  | cons c s =>
    have hmem : c ∈ (r ++ c :: s).take o.length := by
      obtain ⟨k, hk⟩ : ∃ k, o.length = r.length + (k + 1) := ⟨o.length - r.length - 1, by omega⟩
      rw [hk, List.take_length_add_append, List.take_succ_cons]
      simp
    have hnot : (!Text.isWord c) = true := hs c rfl
    rw [hword c hmem] at hnot
    cases hnot

include hr hs in
/-- After a part of the run a word character comes next, and after all of it none. -/
theorem isWord_after {n : Nat} (hn : n ≤ r.length) :
    ((r ++ s).drop n).head?.any Text.isWord = decide (n < r.length) := by
  rw [List.drop_append_of_le_length hn]
  by_cases hlt : n < r.length
  · rw [List.drop_eq_getElem_cons hlt, List.cons_append, List.head?_cons, Option.any_some,
      hr _ (List.getElem_mem hlt)]
    simp [hlt]
  · obtain rfl : n = r.length := by omega
    rw [List.drop_length, List.nil_append]
    cases s with
    | nil => simp
    | cons c s => simpa using hs c rfl

include hr hs in
/-- An operator stands at the start of a whole run exactly when it is the run. -/
theorem operator_stands {o : List Char} (ho : o ∈ operators) :
    (beginsFolded o (r ++ s) && !((r ++ s).drop o.length).head?.any Text.isWord) =
      (o.length == r.length && beginsFolded o r) := by
  by_cases hle : o.length ≤ r.length
  · rw [isWord_after hr hs hle, beginsFolded_append_of_le hle, Bool.and_comm]
    congr 1
    rw [Bool.eq_iff_iff, Bool.not_eq_true', decide_eq_false_iff_not, beq_iff_eq]
    omega
  · have hnot : beginsFolded o (r ++ s) = false := by
      rw [← Bool.not_eq_true]
      exact fun h => hle (length_le_of_begins hs ho h)
    have hne : (o.length == r.length) = false := by
      rw [beq_eq_false_iff_ne]
      omega
    rw [hnot, hne]
    rfl

include hr hs in
/-- At a whole run an operator is found where the run is one, and it takes the run. -/
theorem operatorLength_run :
    operatorLength (r ++ s) = if isOperator r then some r.length else none := by
  rw [operatorLength, isOperator]
  cases hfound : operators.find? fun o => beginsFolded o (r ++ s) &&
      !((r ++ s).drop o.length).head?.any Text.isWord with
  | none =>
    rw [if_neg]
    · rfl
    · rw [List.any_eq_true]
      rintro ⟨o, ho, hsome⟩
      apply List.find?_eq_none.mp hfound o ho
      rwa [operator_stands hr hs ho]
  | some o =>
    have ho := List.mem_of_find?_eq_some hfound
    have hsome := List.find?_some hfound
    rw [operator_stands hr hs ho] at hsome
    have hlength := (Bool.and_eq_true_iff.mp hsome).1
    rw [if_pos (List.any_eq_true.mpr ⟨o, ho, hsome⟩), Option.map_some, eq_of_beq hlength]

end WholeRun

/-- No operator starts with another character than a word character. -/
theorem operatorLength_other {c : Char} (hc : Text.isWord c = false) (s : List Char) :
    operatorLength (c :: s) = none := by
  rw [operatorLength, Option.map_eq_none_iff, List.find?_eq_none]
  intro o ho hfound
  obtain ⟨hne, hletters⟩ := operators_letters o ho
  obtain ⟨a, o, rfl⟩ := List.exists_cons_of_ne_nil hne
  have hbegins := (Bool.and_eq_true_iff.mp hfound).1
  have hword := isWord_of_beginsFolded hletters hbegins c (by simp)
  rw [hc] at hword
  cases hword

theorem withoutOperators_other {c : Char} (hc : Text.isWord c = false) (afterWord : Bool)
    (s : List Char) :
    withoutOperators 0 afterWord (c :: s) = c :: withoutOperators 0 false s := by
  rw [withoutOperators, operatorLength_other hc, ite_self, hc]

/-- Inside a run nothing is taken away. -/
theorem withoutOperators_inside {r : List Char} (hr : ∀ c ∈ r, Text.isWord c = true) (s : List Char) :
    withoutOperators 0 true (r ++ s) = r ++ withoutOperators 0 true s := by
  induction r with
  | nil => rfl
  | cons c r ih =>
    obtain ⟨hc, hr⟩ := List.forall_mem_cons.mp hr
    rw [List.cons_append, withoutOperators, if_pos rfl, hc, ih hr]
    rfl

/-- What an operator covers is passed over. -/
theorem withoutOperators_covered {r : List Char} (hr : ∀ c ∈ r, Text.isWord c = true) (s : List Char) :
    withoutOperators r.length true (r ++ s) = withoutOperators 0 true s := by
  induction r with
  | nil => rfl
  | cons c r ih =>
    obtain ⟨hc, hr⟩ := List.forall_mem_cons.mp hr
    rw [List.length_cons, List.cons_append, withoutOperators, hc, ih hr]

/-- Where a run ends, it makes no difference that there was one. -/
theorem withoutOperators_stops {s : List Char} (hs : Stops (!Text.isWord ·) s) (afterWord : Bool) :
    withoutOperators 0 afterWord s = withoutOperators 0 false s := by
  cases s with
  | nil => rfl
  | cons c s =>
    have hc : Text.isWord c = false := by simpa using hs c rfl
    rw [withoutOperators_other hc, withoutOperators_other hc]

theorem withoutOperators_run {r s : List Char} (hne : r ≠ []) (hr : ∀ c ∈ r, Text.isWord c = true)
    (hs : Stops (!Text.isWord ·) s) : withoutOperators 0 false (r ++ s) =
      (if isOperator r then [] else r) ++ withoutOperators 0 false s := by
  have hlength := operatorLength_run hr hs
  obtain ⟨c, r, rfl⟩ := List.exists_cons_of_ne_nil hne
  obtain ⟨hc, hrest⟩ := List.forall_mem_cons.mp hr
  rw [List.cons_append] at hlength ⊢
  rw [withoutOperators, hlength, hc, if_neg Bool.false_ne_true]
  by_cases hop : isOperator (c :: r) = true
  · simp only [hop, if_true, List.length_cons, Nat.add_sub_cancel]
    rw [withoutOperators_covered hrest, withoutOperators_stops hs]
    rfl
  · simp only [hop]
    rw [withoutOperators_inside hrest, withoutOperators_stops hs]
    rfl

theorem stops_withoutOperators {s : List Char} (hs : Stops (!Text.isWord ·) s) :
    Stops (!Text.isWord ·) (withoutOperators 0 false s) := by
  cases s with
  | nil => exact .nil
  | cons c s =>
    have hc : Text.isWord c = false := by simpa using hs c rfl
    rw [withoutOperators_other hc]
    exact .cons (by simp [hc]) _

/-- The words of a text: its runs of word characters. -/
def wordRuns (s : List Char) : List (List Char) :=
  runsBetween (!Text.isWord ·) s

/-- Exactly the words that are operators are taken away. -/
theorem wordRuns_withoutOperators (s : List Char) :
    wordRuns (withoutOperators 0 false s) = (wordRuns s).filter (!isOperator ·) := by
  unfold wordRuns
  induction s using runs_induction (p := (!Text.isWord ·)) with
  | nil => rfl
  | sep c s hc ih =>
    rw [withoutOperators_other (by simpa using hc), runsBetween_sep hc, runsBetween_sep hc, ih]
  | run r s hne hr hs ih =>
    rw [withoutOperators_run hne (by simpa using hr) hs, runsBetween_run hne hr hs]
    by_cases hop : isOperator r = true
    · rw [if_pos hop, List.nil_append, ih, List.filter_cons_of_neg (by simp [hop])]
    · rw [if_neg hop, runsBetween_run hne hr (stops_withoutOperators hs), ih,
        List.filter_cons_of_pos (by simp [hop])]

/-- A text whose words are no operators stays as it is. -/
theorem withoutOperators_eq_self {s : List Char} (h : ∀ r ∈ wordRuns s, isOperator r = false) :
    withoutOperators 0 false s = s := by
  unfold wordRuns at h
  induction s using runs_induction (p := (!Text.isWord ·)) with
  | nil => rfl
  | sep c s hc ih =>
    rw [runsBetween_sep hc] at h
    rw [withoutOperators_other (by simpa using hc), ih h]
  | run r s hne hr hs ih =>
    rw [runsBetween_run hne hr hs, List.forall_mem_cons] at h
    rw [withoutOperators_run hne (by simpa using hr) hs, h.1, ih h.2]
    rfl

theorem mem_withoutOperators {covered : Nat} {afterWord : Bool} {s : List Char} {c : Char}
    (h : c ∈ withoutOperators covered afterWord s) : c ∈ s := by
  induction s generalizing covered afterWord with
  | nil =>
    rw [withoutOperators] at h
    exact h
  | cons d s ih =>
    cases covered with
    | succ covered => exact List.mem_cons_of_mem d (ih h)
    | zero =>
      rw [withoutOperators] at h
      split at h
      · exact List.mem_cons_of_mem d (ih h)
      · rcases List.mem_cons.mp h with rfl | h
        · exact List.mem_cons_self
        · exact List.mem_cons_of_mem d (ih h)

end Operators

section Harmless

structure Harmless (s : List Char) : Prop where
  plain : ∀ c ∈ s, special.contains c = false
  operators : ∀ r ∈ wordRuns s, isOperator r = false
  squeezed : Squeezed s
  trimmed : trim s = s

theorem separates_of_isBlank {c : Char} (h : isBlank c = true) : (!Text.isWord c) = true := by
  rw [Bool.not_eq_true', ← Bool.not_eq_true]
  intro hword
  rw [isBlank_of_isWord hword] at h
  cases h

/-- What is left of any text. -/
theorem harmless_cleaned (s : List Char) :
    Harmless (trim (squeeze (withoutOperators 0 false (s.filter (!special.contains ·))))) where
  plain := by
    intro c hc
    rcases mem_squeeze (mem_of_mem_trim hc) with rfl | hc
    · decide
    · simpa using (List.mem_filter.mp (mem_withoutOperators hc)).2
  operators := by
    intro r hr
    rw [wordRuns, runsBetween_trim fun _ => separates_of_isBlank,
      runsBetween_squeeze fun _ => separates_of_isBlank] at hr
    have hfiltered : r ∈ wordRuns (withoutOperators 0 false (s.filter (!special.contains ·))) := hr
    rw [wordRuns_withoutOperators] at hfiltered
    simpa using (List.mem_filter.mp hfiltered).2
  squeezed := (squeezed_squeeze _).trim
  trimmed := trim_trim _

theorem harmless_nil : Harmless [] where
  plain := by simp
  operators := by simp [wordRuns, runsBetween_nil]
  squeezed := .nil
  trimmed := rfl

theorem sanitize_harmless (term : String) :
    Harmless (sanitize term).toList ∧ (sanitize term = "" ∨ minLength ≤ (sanitize term).length) := by
  unfold sanitize
  simp only
  split
  case isTrue => exact ⟨harmless_nil, Or.inl rfl⟩
  case isFalse hlength =>
    rw [String.toList_ofList, String.length_ofList]
    exact ⟨harmless_cleaned _, Or.inr (Nat.le_of_not_lt hlength)⟩

/-- A harmless text that is long enough, or empty, stays as it is. -/
theorem sanitize_eq_self {s : String} (h : Harmless s.toList)
    (hlength : s = "" ∨ minLength ≤ s.length) : sanitize s = s := by
  have hplain : s.toList.filter (!special.contains ·) = s.toList := by
    rw [List.filter_eq_self]
    intro c hc
    rw [h.plain c hc]
    rfl
  unfold sanitize
  simp only
  rw [hplain, withoutOperators_eq_self h.operators, h.squeezed.squeeze_eq, h.trimmed,
    String.ofList_toList]
  rcases hlength with rfl | hlength
  · rfl
  · rw [if_neg]
    exact Nat.not_lt.mpr hlength

/-- Where an operator stands in a harmless text, a word goes on before it or after it. -/
theorem Harmless.no_operator {s : List Char} (h : Harmless s) {front w back : List Char}
    (hs : s = front ++ w ++ back) (hw : lowerChars w ∈ ["and", "or", "not"].map String.toList) :
    front.getLast?.any Text.isWord = true ∨ back.head?.any Text.isWord = true := by
  obtain ⟨hop, hne, hword⟩ := isOperator_of_lower hw
  by_contra halone
  rw [not_or, Bool.not_eq_true, Bool.not_eq_true] at halone
  have hrun : w ∈ wordRuns s := by
    rw [hs]
    apply mem_runsBetween hne
    · intro c hc
      rw [hword c hc]
      rfl
    · intro c hc
      rw [Option.mem_def.mp hc] at halone
      simpa using halone.1
    · intro c hc
      rw [Option.mem_def.mp hc] at halone
      simpa using halone.2
  rw [h.operators w hrun] at hop
  cases hop

end Harmless

end Soql.SearchTerm
