import Mathlib.Data.List.Basic
import Soql.Proofs.Grounding.SearchTerm
import Soql.Proofs.Query.Counts
import Soql.Schema.Graph

/-!
A search for a harmless term finds the records that it is meant to find. The text of the search is taken
apart again into the words of the term and one limit for each object, and then the records are taken in
order, for each object no more than its limit.
-/

namespace Soql.Search

open Text Token

section Clauses

/-- A text is cut where a character stands first. -/
theorem cutAtFirst_char {c : Char} {s : List Char} (hs : c ∉ s) (rest : List Char) :
    cutAtFirst [c] (s ++ c :: rest) = some (s, rest) := by
  induction s with
  | nil => simp [cutAtFirst]
  | cons d s ih =>
    rw [List.mem_cons, not_or] at hs
    have hprefix : [c].isPrefixOf (d :: (s ++ c :: rest)) = false := by
      rw [List.isPrefixOf, beq_eq_false_iff_ne.mpr hs.1, Bool.false_and]
    rw [List.cons_append, cutAtFirst, hprefix, ih hs.2]
    rfl

/-- The words to find are the term between the braces. -/
theorem firstFindClause_text {term : List Char} (hterm : '\x7d' ∉ term) (rest : List Char) :
    firstFindClause ("FIND \x7b".toList ++ (term ++ '\x7d' :: rest)) = some (term, rest) := by
  have hcut := cutAtFirst_char hterm rest
  have hfind : findClause ("FIND \x7b".toList ++ (term ++ '\x7d' :: rest)) = some (term, rest) := by
    have hbegins : beginsFolded "FIND".toList ("FIND \x7b".toList ++ (term ++ '\x7d' :: rest)) = true := by
      have hword : beginsFolded "FIND".toList "FIND".toList = true := by decide
      exact hword
    rw [findClause, if_pos hbegins]
    exact hcut
  have hsome : "FIND \x7b".toList ++ (term ++ '\x7d' :: rest) =
      'F' :: ("IND \x7b".toList ++ (term ++ '\x7d' :: rest)) := rfl
  rw [hsome] at hfind ⊢
  rw [firstFindClause, hfind]
  rfl

/-- What a target covers is passed over. -/
theorem targets_covered (s rest : List Char) : targets s.length (s ++ rest) = targets 0 rest := by
  induction s with
  | nil => rfl
  | cons c s ih => rw [List.length_cons, List.cons_append, targets, ih]

theorem targets_other {c : Char} (hc : isIdentFirst c = false) (s : List Char) :
    targets 0 (c :: s) = targets 0 s := by
  have hnone : target (c :: s) = none := by rw [target, hc, if_neg Bool.false_ne_true]
  rw [targets, hnone]

/-- A word without a parenthesis after it is no target, and no end of it is one. -/
theorem targets_word {w s : List Char} (hw : ∀ c ∈ w, isIdentRest c = true)
    (hs : ∀ c ∈ s.head?, isIdentRest c = false) (hnot : (s.dropWhile isBlank).head? ≠ some '(') :
    targets 0 (w ++ s) = targets 0 s := by
  induction w with
  | nil => rfl
  | cons c w ih =>
    obtain ⟨hc, hw⟩ := List.forall_mem_cons.mp hw
    have hrun := takeWhile_append_stop w hw hs
    have hnone : target (c :: (w ++ s)) = none := by
      rw [target, hrun.2]
      split
      · split
        · rename_i inside hinside
          rw [hinside] at hnot
          exact absurd rfl hnot
        · rfl
      · rfl
    rw [List.cons_append, targets, hnone]
    exact ih hw

/-- A name with something in parentheses after it is a target. -/
theorem targets_call {o : String} (ho : isIdent o = true) {inner : List Char} (hinner : ')' ∉ inner)
    (rest : List Char) : targets 0 (o.toList ++ '(' :: (inner ++ ')' :: rest)) =
      (o.toList, inner) :: targets 0 rest := by
  unfold isIdent at ho
  split at ho
  case h_2 => cases ho
  case h_1 c name hname =>
    rw [Bool.and_eq_true, List.all_eq_true] at ho
    have hstop : ∀ d ∈ ('(' :: (inner ++ ')' :: rest)).head?, isIdentRest d = false := by
      intro d hd
      obtain rfl : '(' = d := by simpa using hd
      decide
    have hrun := takeWhile_append_stop name ho.2 hstop
    have hopen : ('(' :: (inner ++ ')' :: rest)).dropWhile isBlank = '(' :: (inner ++ ')' :: rest) :=
      List.dropWhile_cons_of_neg (by decide)
    have htarget : target (c :: (name ++ '(' :: (inner ++ ')' :: rest))) =
        some (c :: name, inner, (c :: (name ++ '(' :: (inner ++ [')']))).length) := by
      rw [target, if_pos ho.1, hrun.1, hrun.2, hopen]
      simp only [cutAtFirst_char hinner, Option.map_some]
      congr 3
      simp only [List.length_cons, List.length_append, List.length_nil]
      omega
    have hcovered := targets_covered (name ++ '(' :: (inner ++ [')'])) rest
    rw [hname, List.cons_append, targets, htarget]
    simp only [List.length_cons, Nat.add_sub_cancel]
    simpa using hcovered

end Clauses

section Limit

def passes : (afterWord : Bool) → List Char → Bool
  | _, [] => true
  | afterWord, c :: rest => (afterWord || !sameFolded 'L' c) && passes (Text.isWord c) rest

/-- Such a text holds no limit, and neither does what begins in it. -/
theorem limitIn_passes {afterWord : Bool} {s : List Char} (hs : passes afterWord s = true)
    (rest : List Char) : limitIn afterWord (s ++ ' ' :: rest) = limitIn false rest := by
  have hskip (afterWord : Bool) (c : Char) (tail : List Char)
      (hc : (afterWord || !sameFolded 'L' c) = true) :
      limitIn afterWord (c :: tail) = limitIn (Text.isWord c) tail := by
    rw [limitIn, if_neg]
    intro hlimit
    simp only [Bool.and_eq_true, Bool.not_eq_true'] at hlimit
    obtain ⟨⟨⟨hfree, hbegins⟩, -⟩, -⟩ := hlimit
    rw [hfree, Bool.false_or, Bool.not_eq_true'] at hc
    have hfirst : sameFolded 'L' c = true := (Bool.and_eq_true_iff.mp hbegins).1
    rw [hc] at hfirst
    cases hfirst
  induction s generalizing afterWord with
  | nil =>
    rw [List.nil_append, hskip afterWord ' ' rest (by cases afterWord <;> decide)]
    rfl
  | cons c s ih =>
    rw [passes, Bool.and_eq_true] at hs
    rw [List.cons_append, hskip afterWord c _ hs.1]
    exact ih hs.2

theorem limitIn_digits {digits : List Char} (hne : digits ≠ [])
    (hdigits : ∀ c ∈ digits, isDecimal c = true) :
    limitIn false ("LIMIT ".toList ++ digits) = some (decimalValue digits) := by
  have hblank : (' ' :: digits).dropWhile isBlank = digits := by
    rw [List.dropWhile_cons_of_pos (by decide), List.dropWhile_eq_self_iff]
    intro hlength
    have hsolid := solid_of_decimal (hdigits _ (List.getElem_mem hlength))
    simp only [solid, Bool.and_eq_true, Bool.not_eq_true'] at hsolid
    simp [hsolid.1]
  have htake : digits.takeWhile isDecimal = digits := List.takeWhile_eq_self_iff.mpr hdigits
  have hnumber : (((' ' :: digits).dropWhile isBlank).takeWhile isDecimal) = digits := by
    rw [hblank, htake]
  have hfull : digits.isEmpty = false := by simpa using hne
  change limitIn false ('L' :: ("IMIT".toList ++ ' ' :: digits)) = _
  have htail : ('L' :: ("IMIT".toList ++ ' ' :: digits)).drop 5 = ' ' :: digits := rfl
  have hbegins : beginsFolded "LIMIT".toList ('L' :: ("IMIT".toList ++ ' ' :: digits)) = true := by
    have hword : beginsFolded "LIMIT".toList "LIMIT".toList = true := by decide
    exact hword
  rw [limitIn, htail, hnumber, hbegins, hfull]
  rfl

end Limit

section Scope

def fieldsText (object : String) : String :=
  joined ", " (["Id", "Name"] ++ (Vocabulary.searchFields.lookup object).getD [])

theorem fieldsText_plain (object : String) :
    passes false (fieldsText object).toList = true ∧ ')' ∉ (fieldsText object).toList := by
  have hall : ∀ fields ∈ [] :: Vocabulary.searchFields.map Prod.snd,
      passes false (joined ", " (["Id", "Name"] ++ fields)).toList = true ∧
        ')' ∉ (joined ", " (["Id", "Name"] ++ fields)).toList := by
    decide
  apply hall
  cases hfields : Vocabulary.searchFields.lookup object with
  | none => exact List.mem_cons_self
  | some fields =>
    obtain ⟨before, after, hpairs, -⟩ := List.lookup_eq_some_iff.mp hfields
    apply List.mem_cons_of_mem
    rw [hpairs]
    simp

def innerText (limit : Nat) (object : String) : List Char :=
  (fieldsText object).toList ++ ' ' :: ("LIMIT ".toList ++ (toString limit).toList)

theorem returning_text (limit : Nat) (object : String) :
    (SearchTerm.returning (limit : Int) object).toList =
      object.toList ++ '(' :: (innerText limit object ++ [')']) := by
  have hlimit : toString (limit : Int) = toString limit := rfl
  have hword : " LIMIT ".toList = ' ' :: "LIMIT ".toList := rfl
  have hopen : "(".toList = ['('] := rfl
  have hclose : ")".toList = [')'] := rfl
  simp only [SearchTerm.returning, innerText, fieldsText, hlimit, hword, hopen, hclose,
    String.toList_append, List.append_assoc, List.cons_append, List.nil_append]

theorem innerText_closed (limit : Nat) (object : String) : ')' ∉ innerText limit object := by
  have hdigits := List.all_eq_true.mp (digits_toString limit).1
  rw [innerText, List.mem_append]
  rintro (hfields | hlimit)
  · exact (fieldsText_plain object).2 hfields
  · rcases List.mem_cons.mp hlimit with heq | hlimit
    · revert heq
      decide
    · rcases List.mem_append.mp hlimit with hword | hdigit
      · revert hword
        decide
      · have hdecimal := hdigits _ hdigit
        revert hdecimal
        decide

/-- The limit is read again. -/
theorem limitIn_innerText (limit : Nat) (object : String) :
    limitIn false (innerText limit object) = some limit := by
  obtain ⟨hdigits, hvalue⟩ := digits_toString limit
  have hne : (toString limit).toList ≠ [] := by
    have htext : (toString limit).toList = Nat.toDigits 10 limit := Nat.toList_repr
    rw [htext]
    exact Nat.toDigits_ne_nil
  rw [innerText, limitIn_passes (fieldsText_plain object).1,
    limitIn_digits hne (List.all_eq_true.mp hdigits), hvalue]

/-- The objects of a search are its targets. -/
theorem targets_joined (limit : Nat) {scope : List String} (hscope : ∀ o ∈ scope, isIdent o = true) :
    targets 0 (joined ", " (scope.map (SearchTerm.returning (limit : Int)))).toList =
      scope.map fun o => (o.toList, innerText limit o) := by
  induction scope with
  | nil => rfl
  | cons o scope ih =>
    obtain ⟨ho, hscope⟩ := List.forall_mem_cons.mp hscope
    have hone (rest : List Char) : targets 0 ((SearchTerm.returning (limit : Int) o).toList ++ rest) =
        (o.toList, innerText limit o) :: targets 0 rest := by
      have hcall := targets_call ho (innerText_closed limit o) rest
      rw [returning_text]
      simpa using hcall
    have hrest := ih hscope
    cases scope with
    | nil =>
      have hlast := hone []
      rw [List.append_nil] at hlast
      exact hlast
    | cons next scope =>
      rw [List.map_cons, List.map_cons, joined, String.intercalate_cons_cons, String.toList_append,
        String.toList_append, List.append_assoc, hone, List.map_cons]
      -- The comma and the space between two objects start no target.
      have hcomma (rest : List Char) : targets 0 (", ".toList ++ rest) = targets 0 rest := by
        change targets 0 (',' :: ' ' :: rest) = _
        rw [targets_other (by decide), targets_other (by decide)]
      rw [hcomma]
      exact congrArg _ hrest

/-- An identifier is no parenthesis. -/
theorem head_of_ident {o : String} (ho : isIdent o = true) (rest : List Char) :
    ((o.toList ++ rest).dropWhile isBlank).head? ≠ some '(' := by
  unfold isIdent at ho
  split at ho
  case h_2 => cases ho
  case h_1 c name hname =>
    have hfirst := (Bool.and_eq_true_iff.mp ho).1
    have hsolid := solid_of_identRest (identRest_of_identFirst hfirst)
    simp only [solid, Bool.and_eq_true, Bool.not_eq_true'] at hsolid
    rw [hname, List.cons_append, List.dropWhile_cons_of_neg (by simp [hsolid.1]), List.head?_cons]
    intro hopen
    obtain rfl := Option.some.inj hopen
    revert hfirst
    decide

theorem targets_ident {w : String} (hw : isIdent w = true) {rest : List Char}
    (hrest : (rest.dropWhile isBlank).head? ≠ some '(') :
    targets 0 (w.toList ++ ' ' :: rest) = targets 0 rest := by
  have hchars : ∀ c ∈ w.toList, isIdentRest c = true := by
    unfold isIdent at hw
    split at hw
    case h_2 => cases hw
    case h_1 c name hname =>
      rw [Bool.and_eq_true, List.all_eq_true] at hw
      rw [hname, List.forall_mem_cons]
      exact ⟨identRest_of_identFirst hw.1, hw.2⟩
  have hstop : ∀ c ∈ (' ' :: rest).head?, isIdentRest c = false := by
    intro c hc
    obtain rfl : ' ' = c := by simpa using hc
    decide
  have hblank : (' ' :: rest).dropWhile isBlank = rest.dropWhile isBlank :=
    List.dropWhile_cons_of_pos (by decide)
  rw [targets_word hchars hstop (by rwa [hblank]), targets_other (by decide)]

/-- The words before the objects are no targets. -/
theorem targets_returning {s : List Char} (hs : (s.dropWhile isBlank).head? ≠ some '(') :
    targets 0 (" IN NAME FIELDS RETURNING ".toList ++ s) = targets 0 s := by
  have hreturning : targets 0 ("RETURNING".toList ++ ' ' :: s) = targets 0 s :=
    targets_ident (by decide) hs
  have hfields := targets_ident (w := "FIELDS") (by decide)
    (head_of_ident (o := "RETURNING") (by decide) (' ' :: s))
  have hname := targets_ident (w := "NAME") (by decide)
    (head_of_ident (o := "FIELDS") (by decide) (' ' :: ("RETURNING".toList ++ ' ' :: s)))
  have hin := targets_ident (w := "IN") (by decide) (head_of_ident (o := "NAME") (by decide)
    (' ' :: ("FIELDS".toList ++ ' ' :: ("RETURNING".toList ++ ' ' :: s))))
  change targets 0 (' ' :: ("IN".toList ++ ' ' :: ("NAME".toList ++ ' ' :: ("FIELDS".toList ++
    ' ' :: ("RETURNING".toList ++ ' ' :: s))))) = _
  rw [targets_other (by decide), hin, hname, hfields, hreturning]

theorem joined_head (limit : Nat) {scope : List String} (hscope : ∀ o ∈ scope, isIdent o = true) :
    ((joined ", " (scope.map (SearchTerm.returning (limit : Int)))).toList.dropWhile isBlank).head? ≠
      some '(' := by
  cases scope with
  | nil =>
    rw [List.map_nil]
    decide
  | cons o scope =>
    have ho := hscope o List.mem_cons_self
    cases scope with
    | nil =>
      rw [List.map_singleton, joined, String.intercalate_singleton, returning_text]
      exact head_of_ident ho _
    | cons next scope =>
      rw [List.map_cons, List.map_cons, joined, String.intercalate_cons_cons, String.toList_append,
        String.toList_append, returning_text, List.append_assoc, List.append_assoc]
      exact head_of_ident ho _

/-- A search is read as the words of its term and the limit for each object. -/
theorem run_searchText (records : List Record) {term : String} (hterm : '\x7d' ∉ term.toList)
    (limit : Nat) {scope : List String} (hscope : ∀ o ∈ scope, isIdent o = true) :
    run records (SearchTerm.searchText term scope limit) =
      select (Table.putAll (scope.map fun o => (o, limit)) [])
        ((runsBetween isBlank term.toList).map lowerChars) [] records := by
  have htext : (SearchTerm.searchText term scope limit).toList = "FIND \x7b".toList ++ (term.toList ++
      '\x7d' :: (" IN NAME FIELDS RETURNING ".toList ++
        (joined ", " (scope.map (SearchTerm.returning (limit : Int)))).toList)) := by
    have hclose : "\x7d IN NAME FIELDS RETURNING ".toList =
        '\x7d' :: " IN NAME FIELDS RETURNING ".toList := rfl
    simp only [SearchTerm.searchText, String.toList_append, hclose, List.append_assoc,
      List.cons_append]
  unfold run
  rw [htext, firstFindClause_text hterm]
  simp only
  rw [targets_returning (joined_head limit hscope), targets_joined limit hscope, List.map_map]
  congr 3
  funext o
  simp [limitIn_innerText]

end Scope

section Select

/-- The same value for each of some keys. -/
theorem find?_putAll_same {κ α : Type} [DecidableEq κ] (keys : List κ) (value : α) (key : κ)
    (table : List (κ × α)) : Table.find? key (Table.putAll (keys.map fun k => (k, value)) table) =
      if key ∈ keys then some value else Table.find? key table := by
  induction keys generalizing table with
  | nil => simp [Table.putAll]
  | cons k keys ih =>
    have hrest := ih (Table.put k value table)
    rw [Table.putAll] at hrest ⊢
    rw [List.map_cons, List.foldl_cons, hrest]
    by_cases hkeys : key ∈ keys
    · simp [hkeys]
    · by_cases hk : key = k
      · subst hk
        simp [hkeys, Table.find?_put_self]
      · simp [hkeys, hk, Table.find?_put_of_ne hk]

/-- A name fits a term: each word of the term begins a word of the name, ignoring case. -/
def fits (term name : String) : Bool :=
  (words term).all fun w => (SearchTerm.wordRuns name.toList).any fun n =>
    (lowerChars w.toList).isPrefixOf (lowerChars n)

theorem hasWords_eq_fits (term name : String) :
    hasWords ((runsBetween isBlank term.toList).map lowerChars) name = fits term name := by
  unfold hasWords fits words nameWords SearchTerm.wordRuns
  rw [List.all_map, List.all_map]
  congr 1
  funext w
  simp [List.any_map, Function.comp_def]

def countOf (p : Record → Bool) (object : String) (records : List Record) : Nat :=
  records.countP fun r => r.object == object && p r

theorem countOf_append_singleton (p : Record → Bool) (object : String) (records : List Record)
    (r : Record) : countOf p object (records ++ [r]) =
      countOf p object records + if r.object == object && p r then 1 else 0 := by
  simp only [countOf, List.countP_append, List.countP_cons, List.countP_nil, Nat.zero_add]

/-- The records that fulfil a condition, in order, for each object only the first of them. -/
def firstOfEach (limit : Nat) (p : Record → Bool) (records : List Record) : List Record :=
  (records.zipIdx.filter fun (r, i) =>
    p r && decide (countOf p r.object (records.take i) < limit)).map Prod.fst

variable {limits : List (String × Nat)} {words : List (List Char)} {limit : Nat} {p : Record → Bool}

/-- With the records before counted up to the limit, the rest is selected as it should be. -/
theorem select_after
    (hp : ∀ r, p r = ((Table.find? r.object limits).isSome && hasWords words r.name))
    (hlimits : ∀ o l, Table.find? o limits = some l → l = limit) {counts : List (String × Nat)}
    (before rest : List Record)
    (hcounts : ∀ o, (Table.find? o counts).getD 0 = min limit (countOf p o before)) :
    select limits words counts rest = ((rest.zipIdx before.length).filter fun (r, i) =>
      p r && decide (countOf p r.object ((before ++ rest).take i) < limit)).map Prod.fst := by
  induction rest generalizing counts before with
  | nil => rfl
  | cons r rest ih =>
    have htake : (before ++ r :: rest).take before.length = before := List.take_left
    have hshift : before ++ r :: rest = (before ++ [r]) ++ rest := by simp
    have hlength : before.length + 1 = (before ++ [r]).length := by simp
    -- A record that is left out does not change the counts.
    have hpass (hout : p r = true → limit ≤ countOf p r.object before) :
        ∀ o, (Table.find? o counts).getD 0 = min limit (countOf p o (before ++ [r])) := by
      intro o
      rw [hcounts, countOf_append_singleton]
      split
      case isTrue hboth =>
        obtain ⟨hobject, hr⟩ := Bool.and_eq_true_iff.mp hboth
        have hfull := hout hr
        rw [eq_of_beq hobject] at hfull
        omega
      case isFalse => rfl
    rw [List.zipIdx_cons, List.filter_cons]
    simp only [htake]
    rw [select]
    cases hfind : Table.find? r.object limits with
    | none =>
      have hr : p r = false := by rw [hp, hfind]; rfl
      simp only [hr, Bool.false_and]
      rw [ih _ (hpass fun h => absurd h (by simp [hr])), hshift, hlength]
      rfl
    | some l =>
      obtain rfl := hlimits _ _ hfind
      have hr : p r = hasWords words r.name := by rw [hp, hfind]; rfl
      have hcount := hcounts r.object
      have hlt : decide ((Table.find? r.object counts).getD 0 < l) =
          decide (countOf p r.object before < l) := by
        rw [hcount]
        exact decide_eq_decide.mpr (by omega)
      simp only [hlt, ← hr, Bool.and_comm (decide _) (p r)]
      by_cases htaken : (p r && decide (countOf p r.object before < l)) = true
      · obtain ⟨hpr, hfree⟩ := Bool.and_eq_true_iff.mp htaken
        have hfree := of_decide_eq_true hfree
        have hnext : ∀ o, (Table.find? o
            (Table.put r.object ((Table.find? r.object counts).getD 0 + 1) counts)).getD 0 =
              min l (countOf p o (before ++ [r])) := by
          intro o
          rw [countOf_append_singleton, hpr, Bool.and_true]
          by_cases ho : o = r.object
          · subst ho
            rw [Table.find?_put_self, Option.getD_some, hcount]
            simp only [BEq.rfl, if_true]
            omega
          · have hother : (r.object == o) = false := beq_eq_false_iff_ne.mpr (Ne.symm ho)
            rw [Table.find?_put_of_ne ho, hcounts, hother]
            rfl
        rw [if_pos htaken, if_pos htaken, ih _ hnext, hshift, hlength]
        rfl
      · have hout : p r = true → l ≤ countOf p r.object before := by
          intro hpr
          rw [hpr, Bool.true_and, decide_eq_true_eq] at htaken
          exact Nat.le_of_not_lt htaken
        rw [if_neg htaken, if_neg htaken, ih _ (hpass hout), hshift, hlength]

/-- The first records of each object in a scope are selected. -/
theorem select_scope (limit : Nat) (scope : List String) (term : String) (records : List Record) :
    select (Table.putAll (scope.map fun o => (o, limit)) [])
      ((runsBetween isBlank term.toList).map lowerChars) [] records =
        firstOfEach limit (fun r => scope.contains r.object && fits term r.name) records := by
  have hscope (o : String) : Table.find? o (Table.putAll (scope.map fun o => (o, limit)) []) =
      if o ∈ scope then some limit else none := find?_putAll_same scope limit o []
  have hp (r : Record) : (scope.contains r.object && fits term r.name) =
      ((Table.find? r.object (Table.putAll (scope.map fun o => (o, limit)) [])).isSome &&
        hasWords ((runsBetween isBlank term.toList).map lowerChars) r.name) := by
    rw [hscope, hasWords_eq_fits]
    by_cases ho : r.object ∈ scope <;> simp [ho]
  refine select_after hp (fun o l hl => ?_) [] records fun o => ?_
  · rw [hscope] at hl
    split at hl
    · exact (Option.some.inj hl).symm
    · cases hl
  · simp [Table.find?, countOf]

end Select

/-- A sanitized term is harmless, and the search that is built from it finds what it should: in the
order of the records, those of the objects in scope in whose names each word of the term begins a word,
for each object the first ones up to the limit. -/
theorem search_sanitized (term : String) (scope : List String) (limit : Int)
    (hscope : ∀ o ∈ scope, isIdent o = true) (hlimit : 0 ≤ limit) :
    (∀ c ∈ (SearchTerm.sanitize term).toList, c ∉ SearchTerm.special) ∧
    (∀ front w back, (SearchTerm.sanitize term).toList = front ++ w ++ back →
      lowerChars w ∈ ["and", "or", "not"].map String.toList →
        front.getLast?.any Text.isWord = true ∨ back.head?.any Text.isWord = true) ∧
    SearchTerm.sanitize (SearchTerm.sanitize term) = SearchTerm.sanitize term ∧
    (SearchTerm.isValid (SearchTerm.sanitize term) = true →
      ∃ text, SearchTerm.search (SearchTerm.sanitize term) scope limit = .ok text ∧
        ∀ (graph : SchemaGraph) (tenant : Tenant), graph.search tenant text =
          firstOfEach limit.toNat
            (fun r => scope.contains r.object && fits (SearchTerm.sanitize term) r.name)
            (graph.schema tenant).records) := by
  obtain ⟨hharmless, hlength⟩ := SearchTerm.sanitize_harmless term
  have hplain : ∀ c ∈ (SearchTerm.sanitize term).toList, c ∉ SearchTerm.special := by
    intro c hc
    simpa using hharmless.plain c hc
  refine ⟨hplain, fun _ _ _ hs hw => hharmless.no_operator hs hw,
    SearchTerm.sanitize_eq_self hharmless hlength, fun hvalid => ?_⟩
  have hclosed : '\x7d' ∉ (SearchTerm.sanitize term).toList := fun h => hplain _ h (by decide)
  obtain ⟨limit, rfl⟩ := Int.eq_ofNat_of_zero_le hlimit
  refine ⟨_, if_pos hvalid, fun graph tenant => ?_⟩
  rw [SchemaGraph.search, run_searchText _ hclosed limit hscope, select_scope]
  rfl

/-- Of the accounts only the first that fits is found, and no record of another object. -/
theorem search_sanitized_accounts :
    (∀ o ∈ ["Account", "Contact"], isIdent o = true) ∧ (0 : Int) ≤ 1 ∧
    SearchTerm.sanitize " \x7bacme\x7d  and  not: Corp " = "acme Corp" ∧
    ∃ text, SearchTerm.search "acme Corp" ["Account", "Contact"] 1 = .ok text ∧
      ((SchemaGraph.load [] none { records := [⟨"Lead", "1", "Acme Corp", []⟩,
        ⟨"Account", "2", "Acme", []⟩, ⟨"Account", "3", "ACME-Corporation", []⟩,
        ⟨"Account", "4", "Acme Corp", []⟩, ⟨"Contact", "5", "Corporal Acmeson", []⟩] }).search none
          text).map Record.id = ["3", "5"] := by
  have hscope : ∀ o ∈ ["Account", "Contact"], isIdent o = true := by decide
  have hsanitize : SearchTerm.sanitize " \x7bacme\x7d  and  not: Corp " = "acme Corp" := by decide
  obtain ⟨-, -, -, hsearch⟩ :=
    search_sanitized " \x7bacme\x7d  and  not: Corp " ["Account", "Contact"] 1 hscope (by decide)
  rw [hsanitize] at hsearch
  obtain ⟨text, htext, hfound⟩ := hsearch (by decide)
  refine ⟨hscope, by decide, hsanitize, text, htext, ?_⟩
  rw [hfound]
  decide

end Soql.Search
