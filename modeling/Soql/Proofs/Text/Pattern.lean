import Mathlib.Data.List.DropRight
import Soql.Proofs.Query.Spelling
import Soql.Proofs.Text.Lower
import Soql.Text.Pattern

namespace Soql.Text

theorem covered_eq_false {spans : List (Nat × Nat)} {codes : List Nat}
    (h : codes.all (!covered spans ·) = true) {n : Nat} (hn : n ∈ codes) : covered spans n = false := by
  simpa using List.all_eq_true.mp h n hn

def wideBlanks : List Nat :=
  [0x85, 0xa0, 0x1680, 0x2028, 0x2029, 0x202f, 0x205f, 0x3000] ++ List.range' 0x2000 11

theorem mem_wideBlanks {c : Char} (h : isBlank c = true) (hc : 128 ≤ c.toNat) : c.toNat ∈ wideBlanks := by
  simp only [isBlank, Bool.or_eq_true, Bool.and_eq_true, decide_eq_true_eq, beq_iff_eq] at h
  simp only [wideBlanks, List.mem_append, List.mem_cons, List.not_mem_nil, or_false, List.mem_range'_1]
  omega

/-- No character of a word is a blank. -/
theorem isBlank_of_isWord {c : Char} (h : isWord c = true) : isBlank c = false := by
  by_cases hc : c.toNat < 128
  · have hascii := Token.of_ascii (p := fun c => !isWord c || !isBlank c) (by decide) hc
    simpa [h] using hascii
  · rw [← Bool.not_eq_true]
    intro hblank
    have hwide : covered letterSpans c.toNat = false :=
      covered_eq_false (by decide +kernel) (mem_wideBlanks hblank (Nat.le_of_not_lt hc))
    simp only [isWord, isAlphanumeric, if_neg hc, hwide, Bool.or_false, beq_iff_eq] at h
    rw [h] at hc
    exact hc (by decide)

section Trimming

theorem dropEnd_eq_self {p : Char → Bool} {s : List Char} (h : ∀ c ∈ s, p c = false) : dropEnd p s = s := by
  rw [dropEnd, List.dropWhile_eq_self_iff.mpr, List.reverse_reverse]
  intro hlength
  simpa using h _ (List.mem_reverse.mp (List.getElem_mem hlength))

theorem dropEnds_eq_self {p : Char → Bool} {s : List Char} (h : ∀ c ∈ s, p c = false) : dropEnds p s = s := by
  have hfront : s.dropWhile p = s := by
    rw [List.dropWhile_eq_self_iff]
    intro hlength
    simpa using h _ (List.getElem_mem hlength)
  rw [dropEnds, hfront, dropEnd_eq_self h]

theorem trimmed_eq_self {s : String} (h : ∀ c ∈ s.toList, isBlank c = false) : trimmed s = s := by
  rw [trimmed, trim, dropEnds_eq_self h, String.ofList_toList]

/-- What is cut off at the end leaves the front as it is. -/
theorem dropWhile_dropEnd {p : Char → Bool} {s : List Char} (h : s.dropWhile p = s) :
    (dropEnd p s).dropWhile p = dropEnd p s := by
  rw [List.dropWhile_eq_self_iff] at h ⊢
  intro hlength
  obtain ⟨cut, hcut⟩ : dropEnd p s <+: s := List.rdropWhile_prefix p s
  have hsome : 0 < s.length := by
    rw [← hcut, List.length_append]
    omega
  have hfirst : (dropEnd p s)[0] = s[0] := by
    conv_rhs => rw [List.getElem_of_eq hcut.symm]
    rw [List.getElem_append_left hlength]
  rw [hfirst]
  exact h _

theorem trim_trim (s : List Char) : trim (trim s) = trim s := by
  have hend : ∀ s, dropEnd isBlank (dropEnd isBlank s) = dropEnd isBlank s :=
    List.rdropWhile_idempotent isBlank
  rw [trim, trim, dropEnds, dropEnds, dropWhile_dropEnd (List.dropWhile_idempotent _ _), hend]

theorem trimmed_trimmed (s : String) : trimmed (trimmed s) = trimmed s := by
  rw [trimmed, trimmed, String.toList_ofList, trim_trim]

end Trimming

theorem mem_pieces_not_sep {p : Char → Bool} {s piece : List Char} (h : piece ∈ pieces p s) {c : Char}
    (hc : c ∈ piece) : p c = false := by
  induction s generalizing piece with
  | nil =>
    obtain rfl := List.mem_singleton.mp h
    cases hc
  | cons d s ih =>
    by_cases hd : p d = true
    · rw [pieces, if_pos hd] at h
      rcases List.mem_cons.mp h with rfl | h
      · cases hc
      · exact ih h hc
    · rw [Bool.not_eq_true] at hd
      rw [pieces_cons_of_not_sep hd] at h
      cases hs : pieces p s with
      | nil => exact absurd hs (pieces_ne_nil p s)
      | cons first others =>
        rw [hs] at h ih
        rcases List.mem_cons.mp h with rfl | h
        · rcases List.mem_cons.mp hc with rfl | hc
          · exact hd
          · exact ih List.mem_cons_self hc
        · exact ih (List.mem_cons_of_mem first h) hc

namespace Pattern

def Takes (p : Char → Bool) : Pattern → Prop
  | one q => ∀ c, q c = true → p c = true
  | many q => ∀ c, q c = true → p c = true
  | seq first second => Takes p first ∧ Takes p second
  | either first second => Takes p first ∧ Takes p second
  | maybe part => Takes p part
  | keep part => Takes p part
  | empty | edge | notBefore _ | notAfter _ => True

def Keeps (p : Char → Bool) : Pattern → Prop
  | seq first second => Keeps p first ∧ Keeps p second
  | either first second => Keeps p first ∧ Keeps p second
  | maybe part => Keeps p part
  | keep part => Keeps p part ∧ Takes p part
  | one _ | many _ | empty | edge | notBefore _ | notAfter _ => True

def Through (p : Char → Bool) (start finish : Place) : Prop :=
  ∃ taken, start.rest = taken ++ finish.rest ∧ ∀ c ∈ taken, p c = true

theorem Through.refl {p : Char → Bool} {start finish : Place} (h : start.rest = finish.rest) :
    Through p start finish :=
  ⟨[], h, fun c hc => by cases hc⟩

theorem Through.trans {p : Char → Bool} {start middle finish : Place} (h : Through p start middle)
    (h' : Through p middle finish) : Through p start finish := by
  obtain ⟨taken, hs, htaken⟩ := h
  obtain ⟨more, hmore, hmoretaken⟩ := h'
  refine ⟨taken ++ more, by rw [hs, hmore, List.append_assoc], ?_⟩
  intro c hc
  rcases List.mem_append.mp hc with hc | hc
  · exact htaken c hc
  · exact hmoretaken c hc

theorem Through.cons {p : Char → Bool} {c : Char} (hc : p c = true) {before : Option Char} {s : List Char}
    {middle finish : Place} (hs : middle.rest = s) (h : Through p middle finish) :
    Through p ⟨before, c :: s⟩ finish := by
  have hstep : Through p ⟨before, c :: s⟩ middle := by
    refine ⟨[c], by rw [hs]; rfl, ?_⟩
    intro d hd
    rw [List.mem_singleton.mp hd]
    exact hc
  exact hstep.trans h

theorem Through.between {p : Char → Bool} {start finish : Place} (h : Through p start finish) :
    ∀ c ∈ (between start finish).toList, p c = true := by
  obtain ⟨taken, hs, htaken⟩ := h
  have hlength : start.rest.length - finish.rest.length = taken.length := by
    rw [hs, List.length_append]
    omega
  rw [Pattern.between, String.toList_ofList, hlength, hs, List.take_left]
  exact htaken

theorem mem_runEnds {p q : Char → Bool} (hp : ∀ c, q c = true → p c = true) {before : Option Char}
    {s : List Char} {finish : Place} (h : finish ∈ runEnds q before s) : Through p ⟨before, s⟩ finish := by
  induction s generalizing before with
  | nil =>
    obtain rfl := List.mem_singleton.mp h
    exact .refl rfl
  | cons c s ih =>
    rw [runEnds] at h
    split at h
    case isTrue hc =>
      rcases List.mem_append.mp h with h | h
      · exact .cons (hp c hc) rfl (ih h)
      · obtain rfl := List.mem_singleton.mp h
        exact .refl rfl
    case isFalse =>
      obtain rfl := List.mem_singleton.mp h
      exact .refl rfl

/-- A pattern that takes nothing ends where it starts, if at all. -/
theorem through_of_mem_ite {p : Char → Bool} {c : Prop} [Decidable c] {start finish : Place × List String}
    (h : finish ∈ if c then [start] else []) : Through p start.1 finish.1 := by
  split at h
  · obtain rfl := List.mem_singleton.mp h
    exact .refl rfl
  · cases h

theorem mem_ends {p : Char → Bool} {pattern : Pattern} (hp : pattern.Takes p)
    {start finish : Place × List String} (h : finish ∈ ends pattern start) :
    Through p start.1 finish.1 := by
  -- By induction on the pattern: only a single character and a run move the place themselves.
  induction pattern generalizing start finish with
  | one q =>
    obtain ⟨⟨before, s⟩, kept⟩ := start
    cases s with
    | nil => cases h
    | cons c s =>
      rw [ends] at h
      split at h
      case isTrue hc =>
        obtain rfl := List.mem_singleton.mp h
        exact .cons (hp c hc) rfl (.refl rfl)
      case isFalse => cases h
  | many q =>
    obtain ⟨place, hplace, rfl⟩ := List.mem_map.mp h
    exact mem_runEnds hp hplace
  | empty =>
    obtain rfl := List.mem_singleton.mp h
    exact .refl rfl
  | seq first second ihfirst ihsecond =>
    obtain ⟨middle, hmiddle, hfinish⟩ := List.mem_flatMap.mp h
    exact (ihfirst hp.1 hmiddle).trans (ihsecond hp.2 hfinish)
  | either first second ihfirst ihsecond =>
    rcases List.mem_append.mp h with h | h
    · exact ihfirst hp.1 h
    · exact ihsecond hp.2 h
  | maybe part ih =>
    rcases List.mem_append.mp h with h | h
    · exact ih hp h
    · obtain rfl := List.mem_singleton.mp h
      exact .refl rfl
  | edge => exact through_of_mem_ite h
  | keep part ih =>
    obtain ⟨inner, hinner, rfl⟩ := List.mem_map.mp h
    have hthrough := ih hp hinner
    exact hthrough
  | notBefore part => exact through_of_mem_ite h
  | notAfter q =>
    rw [ends] at h
    split at h
    · cases h
    · obtain rfl := List.mem_singleton.mp h
      exact .refl rfl

def AllOf (p : Char → Bool) (kept : List String) : Prop :=
  ∀ s ∈ kept, ∀ c ∈ s.toList, p c = true

theorem allOf_of_mem_ite {p : Char → Bool} {c : Prop} [Decidable c] {start finish : Place × List String}
    (hstart : AllOf p start.2) (h : finish ∈ if c then [start] else []) : AllOf p finish.2 := by
  split at h
  · obtain rfl := List.mem_singleton.mp h
    exact hstart
  · cases h

theorem kept_ends {p : Char → Bool} {pattern : Pattern} (hp : pattern.Keeps p)
    {start finish : Place × List String} (hstart : AllOf p start.2) (h : finish ∈ ends pattern start) :
    AllOf p finish.2 := by
  -- By induction on the pattern: a text is kept in one case only, and it is what was gone through.
  induction pattern generalizing start finish with
  | one q =>
    obtain ⟨⟨before, s⟩, kept⟩ := start
    cases s with
    | nil => cases h
    | cons c s =>
      rw [ends] at h
      split at h
      · obtain rfl := List.mem_singleton.mp h
        exact hstart
      · cases h
  | many q =>
    obtain ⟨place, -, rfl⟩ := List.mem_map.mp h
    exact hstart
  | empty =>
    obtain rfl := List.mem_singleton.mp h
    exact hstart
  | seq first second ihfirst ihsecond =>
    obtain ⟨middle, hmiddle, hfinish⟩ := List.mem_flatMap.mp h
    exact ihsecond hp.2 (ihfirst hp.1 hstart hmiddle) hfinish
  | either first second ihfirst ihsecond =>
    rcases List.mem_append.mp h with h | h
    · exact ihfirst hp.1 hstart h
    · exact ihsecond hp.2 hstart h
  | maybe part ih =>
    rcases List.mem_append.mp h with h | h
    · exact ih hp hstart h
    · obtain rfl := List.mem_singleton.mp h
      exact hstart
  | edge => exact allOf_of_mem_ite hstart h
  | keep part ih =>
    obtain ⟨inner, hinner, rfl⟩ := List.mem_map.mp h
    intro s hs
    rcases List.mem_append.mp hs with hs | hs
    · exact ih hp.1 hstart hinner s hs
    · rw [List.mem_singleton.mp hs]
      exact (mem_ends hp.2 hinner).between
  | notBefore part => exact allOf_of_mem_ite hstart h
  | notAfter q =>
    rw [ends] at h
    split at h
    · cases h
    · obtain rfl := List.mem_singleton.mp h
      exact hstart

theorem mem_matchesFrom {p : Char → Bool} {pattern : Pattern} (hp : pattern.Keeps p) {covered : Nat}
    {before : Option Char} {s : List Char} {found : Found} (h : found ∈ matchesFrom pattern covered before s) :
    AllOf p found.kept := by
  induction s generalizing covered before with
  | nil => cases covered <;> cases h
  | cons c s ih =>
    cases covered with
    | succ covered => exact ih h
    | zero =>
      rw [matchesFrom] at h
      split at h
      case h_1 first taken hmatch =>
        rcases List.mem_cons.mp h with rfl | h
        · obtain ⟨finish, hfinish, heq⟩ := Option.map_eq_some_iff.mp hmatch
          cases heq
          exact kept_ends hp (fun s hs => by cases hs) (List.mem_of_mem_head? hfinish)
        · exact ih h
      case h_2 => exact ih h

/-- What a pattern keeps of a text is of the kind that it keeps. -/
theorem mem_findAll {p : Char → Bool} {pattern : Pattern} (hp : pattern.Keeps p) {s : String} {found : Found}
    (h : found ∈ findAll pattern s) : AllOf p found.kept :=
  mem_matchesFrom hp h

section Parts

variable {p : Char → Bool}

theorem keeps_row {patterns : List Pattern} (h : ∀ part ∈ patterns, part.Keeps p) : (row patterns).Keeps p := by
  induction patterns with
  | nil => trivial
  | cons part rest ih =>
    have hrest := ih fun q hq => h q (List.mem_cons_of_mem part hq)
    cases rest with
    | nil => exact h part List.mem_cons_self
    | cons next rest => exact ⟨h part List.mem_cons_self, hrest⟩

theorem keeps_anyOf {patterns : List Pattern} (h : ∀ part ∈ patterns, part.Keeps p) :
    (anyOf patterns).Keeps p := by
  induction patterns with
  | nil => trivial
  | cons part rest ih =>
    have hrest := ih fun q hq => h q (List.mem_cons_of_mem part hq)
    cases rest with
    | nil => exact h part List.mem_cons_self
    | cons next rest => exact ⟨h part List.mem_cons_self, hrest⟩

theorem keeps_anyCase (s : String) : (anyCase s).Keeps p := by
  apply keeps_row
  intro part hpart
  obtain ⟨c, -, rfl⟩ := List.mem_map.mp hpart
  trivial

end Parts

end Pattern

end Soql.Text
