import Soql.Proofs.Query.Spelling
import Soql.Query.Loose

namespace Soql.Loose

open Text

def IsName (w : List Char) : Prop :=
  ∃ first rest, isLatin first = true ∧ (∀ c ∈ rest, isIdentRest c = true) ∧
    (w = first :: rest ∨
      ∃ further, further ≠ [] ∧ (∀ c ∈ further, isIdentRest c = true) ∧ w = first :: rest ++ '.' :: further)

def Stands (w s : List Char) : Prop :=
  IsName w ∧ ∃ after, s = w ++ after ∧ ∀ c ∈ after.head?, isWord c = false

def Heads (w s : List Char) : Prop :=
  Stands w s ∧ ∀ other, Stands other s → other.length ≤ w.length

/-- The names that are read out of a text, of which it is told whether it follows a character of a word. -/
inductive Reads : (afterWord : Bool) → List Char → List (List Char) → Prop
  | done {afterWord : Bool} : Reads afterWord [] []
  | pass {afterWord : Bool} {c : Char} {rest : List Char} {names : List (List Char)}
    (h : afterWord = true ∨ ∀ w, ¬Stands w (c :: rest)) (hrest : Reads (isWord c) rest names) :
    Reads afterWord (c :: rest) names
  | take {w after : List Char} {names : List (List Char)} (h : Heads w (w ++ after))
    (hafter : Reads true after names) : Reads false (w ++ after) (w :: names)

theorem isWord_of_isIdentRest {c : Char} (h : isIdentRest c = true) : isWord c = true := by
  have hascii := Token.toNat_lt_of_identRest h
  rw [isIdentRest, Bool.or_eq_true] at h
  rw [isWord, Bool.or_eq_true]
  rcases h with halphanum | hunderscore
  · right
    rw [isAlphanumeric, if_pos hascii, halphanum]
  · exact .inl hunderscore

theorem isIdentRest_of_isLatin {c : Char} (h : isLatin c = true) : isIdentRest c = true := by
  rw [isIdentRest, Char.isAlphanum, show c.isAlpha = true from h]
  rfl

theorem isIdentRest_false {x : List Char} (h : ∀ c ∈ x.head?, isWord c = false) :
    ∀ c ∈ x.head?, isIdentRest c = false := by
  intro c hc
  by_contra hrest
  have hword := isWord_of_isIdentRest (Bool.not_eq_false _ ▸ hrest)
  rw [h c hc] at hword
  cases hword

/-- A name that stands at the start of a text is the run of characters there, or this run and the one
after a point. -/
theorem stands_iff {w s : List Char} : Stands w s ↔
    (∃ c ∈ s.head?, isLatin c = true) ∧ (∀ c ∈ (s.dropWhile isIdentRest).head?, isWord c = false) ∧
      (w = s.takeWhile isIdentRest ∨
        ∃ t, s.dropWhile isIdentRest = '.' :: t ∧ t.takeWhile isIdentRest ≠ [] ∧
          (∀ c ∈ (t.dropWhile isIdentRest).head?, isWord c = false) ∧
          w = s.takeWhile isIdentRest ++ '.' :: t.takeWhile isIdentRest) := by
  constructor
  · rintro ⟨⟨first, rest, hfirst, hrest, hw⟩, after, rfl, hafter⟩
    have hrun : ∀ c ∈ first :: rest, isIdentRest c = true :=
      List.forall_mem_cons.mpr ⟨isIdentRest_of_isLatin hfirst, hrest⟩
    rcases hw with rfl | ⟨further, hne, hfurther, rfl⟩
    · -- No word runs on behind the name, so that the run of characters ends with it.
      obtain ⟨htake, hdrop⟩ := Token.takeWhile_append_stop (first :: rest) hrun (isIdentRest_false hafter)
      rw [htake, hdrop]
      exact ⟨⟨first, rfl, hfirst⟩, hafter, .inl rfl⟩
    · -- The point ends the first run, and the end of the name the second one.
      obtain ⟨htake, hdrop⟩ := Token.takeWhile_append_stop (first :: rest) hrun
        (x := '.' :: (further ++ after)) (by simp [isIdentRest])
      obtain ⟨hrest, hbehind⟩ := Token.takeWhile_append_stop further hfurther (isIdentRest_false hafter)
      have hsplit : first :: rest ++ '.' :: further ++ after = first :: rest ++ '.' :: (further ++ after) :=
        List.append_assoc _ _ _
      rw [hsplit, htake, hdrop]
      refine ⟨⟨first, rfl, hfirst⟩, by simp; decide, .inr ⟨_, rfl, ?_, ?_, ?_⟩⟩
      · rwa [hrest]
      · rwa [hbehind]
      · rw [hrest]
  · rintro ⟨⟨first, hhead, hfirst⟩, hbehind, hw⟩
    cases s with
    | nil => cases hhead
    | cons c rest =>
      obtain rfl := Option.some.inj hhead
      have hrun : (c :: rest).takeWhile isIdentRest = c :: rest.takeWhile isIdentRest :=
        List.takeWhile_cons_of_pos (isIdentRest_of_isLatin hfirst)
      have hall : ∀ d ∈ rest.takeWhile isIdentRest, isIdentRest d = true :=
        fun d hd => List.mem_takeWhile_imp hd
      have hsplit : (c :: rest).takeWhile isIdentRest ++ (c :: rest).dropWhile isIdentRest = c :: rest :=
        List.takeWhile_append_dropWhile
      rcases hw with rfl | ⟨t, ht, hne, hstop, rfl⟩
      · exact ⟨⟨c, _, hfirst, hall, .inl hrun⟩, _, hsplit.symm, hbehind⟩
      · refine ⟨⟨c, _, hfirst, hall, .inr ⟨_, hne, fun d hd => List.mem_takeWhile_imp hd, ?_⟩⟩,
          t.dropWhile isIdentRest, ?_, hstop⟩
        · rw [hrun]
        · rw [List.append_assoc, List.cons_append, List.takeWhile_append_dropWhile, ← ht, hsplit]

theorem any_head_eq_false {p : Char → Bool} {x : List Char} :
    x.head?.any p = false ↔ ∀ c ∈ x.head?, p c = false := by
  cases x <;> simp

theorem any_head_eq_true {p : Char → Bool} {x : List Char} :
    x.head?.any p = true ↔ ∃ c ∈ x.head?, p c = true := by
  cases x <;> simp

/-- What is read at the start of a text is the longest name that stands there; nothing is read where none
stands. -/
theorem nameAt_spec (s : List Char) :
    (∃ w, nameAt s = some w ∧ Heads w s) ∨ nameAt s = none ∧ ∀ w, ¬Stands w s := by
  by_cases hstart : ¬(s.head?.any isLatin = true ∧ (s.dropWhile isIdentRest).head?.any isWord = false)
  · refine .inr ⟨?_, fun w hw => hstart ?_⟩
    · rw [nameAt, if_pos]
      rw [not_and_or] at hstart
      simpa using hstart
    · obtain ⟨hletter, hbehind, -⟩ := stands_iff.mp hw
      exact ⟨any_head_eq_true.mpr hletter, any_head_eq_false.mpr hbehind⟩
  -- The run of characters is a name, and it is left to see whether a point goes on with it.
  left
  obtain ⟨hletter, hbehind⟩ := not_not.mp hstart
  have hstands {w : List Char} := stands_iff (w := w) (s := s)
  simp only [← any_head_eq_true, ← any_head_eq_false, hletter, hbehind, true_and] at hstands
  rw [nameAt, if_neg (by simp [hletter, hbehind])]
  by_cases hpoint : ∃ t, s.dropWhile isIdentRest = '.' :: t ∧ t.takeWhile isIdentRest ≠ [] ∧
      (t.dropWhile isIdentRest).head?.any isWord = false
  · -- The part after the point belongs to the name, and makes it longer than the run alone.
    obtain ⟨t, ht, hne, hstop⟩ := hpoint
    refine ⟨s.takeWhile isIdentRest ++ '.' :: t.takeWhile isIdentRest, ?_, ?_, fun other hother => ?_⟩
    · simp [ht, hne, hstop]
    · exact hstands.mpr (.inr ⟨t, ht, hne, hstop, rfl⟩)
    · rcases hstands.mp hother with rfl | ⟨t', ht', -, -, rfl⟩
      · rw [List.length_append]
        exact Nat.le_add_right _ _
      · rw [ht] at ht'
        rw [(List.cons.inj ht').2]
  · refine ⟨s.takeWhile isIdentRest, if_neg fun hmore => hpoint ?_, ?_, fun other hother => ?_⟩
    · rw [Bool.and_eq_true, Bool.and_eq_true, beq_iff_eq] at hmore
      obtain ⟨⟨hdot, hsome⟩, hstop⟩ := hmore
      cases hrest : s.dropWhile isIdentRest with
      | nil =>
        rw [hrest] at hdot
        cases hdot
      | cons c t =>
        rw [hrest] at hdot hsome hstop
        obtain rfl := Option.some.inj hdot
        exact ⟨t, rfl, by simpa using hsome, by simpa using hstop⟩
    · exact hstands.mpr (.inl rfl)
    · rcases hstands.mp hother with rfl | ⟨t, ht, hne, hstop, -⟩
      · exact Nat.le_refl _
      · exact absurd ⟨t, ht, hne, hstop⟩ hpoint

/-- A name begins with a letter and ends with a character of a word. -/
theorem IsName.ends {w : List Char} (h : IsName w) : ∃ front last, w = front ++ [last] ∧ isWord last = true := by
  have hend {run : List Char} (hne : run ≠ []) (hrun : ∀ c ∈ run, isIdentRest c = true) :
      ∃ front last, run = front ++ [last] ∧ isWord last = true := by
    refine ⟨run.dropLast, run.getLast hne, (List.dropLast_concat_getLast hne).symm, ?_⟩
    exact isWord_of_isIdentRest (hrun _ (List.getLast_mem hne))
  obtain ⟨first, rest, hfirst, hrest, rfl | ⟨further, hne, hfurther, rfl⟩⟩ := h
  · exact hend (List.cons_ne_nil _ _) (List.forall_mem_cons.mpr ⟨isIdentRest_of_isLatin hfirst, hrest⟩)
  · obtain ⟨front, last, rfl, hlast⟩ := hend hne hfurther
    exact ⟨first :: rest ++ '.' :: front, last, by simp, hlast⟩

/-- Under a name that was read nothing more is read. -/
theorem namesFrom_covered (w after : List Char) (afterWord : Bool) :
    namesFrom w.length afterWord (w ++ after) = namesFrom 0 (w.foldl (fun _ c => isWord c) afterWord) after := by
  induction w generalizing afterWord with
  | nil => rfl
  | cons c w ih => exact ih (isWord c)

theorem namesFrom_of_heads {w after : List Char} (h : Heads w (w ++ after)) :
    namesFrom 0 false (w ++ after) = w :: namesFrom 0 true after := by
  have hname : nameAt (w ++ after) = some w := by
    rcases nameAt_spec (w ++ after) with ⟨found, hfound, hheads⟩ | ⟨-, hnone⟩
    · have hlength : found.length = w.length := Nat.le_antisymm (h.2 _ hheads.1) (hheads.2 _ h.1)
      obtain ⟨-, rest, hsplit, -⟩ := hheads.1
      rw [hfound, (List.append_inj hsplit hlength.symm).1]
    · exact absurd h.1 (hnone w)
  obtain ⟨front, last, hlast, hword⟩ := h.1.1.ends
  cases w with
  | nil => simp at hlast
  | cons c w =>
    -- The last character read is one of a word.
    have hafter : w.foldl (fun _ d => isWord d) (isWord c) = true :=
      calc w.foldl (fun _ d => isWord d) (isWord c)
        _ = (c :: w).foldl (fun _ d => isWord d) false := rfl
        _ = (front ++ [last]).foldl (fun _ d => isWord d) false := by rw [hlast]
        _ = isWord last := by rw [List.foldl_append, List.foldl_cons, List.foldl_nil]
        _ = true := hword
    rw [List.cons_append, namesFrom]
    simp only [Bool.false_eq_true, if_false]
    rw [← List.cons_append, hname]
    simp only [List.length_cons, Nat.add_sub_cancel]
    rw [namesFrom_covered, hafter]

theorem Reads.isName {afterWord : Bool} {s : List Char} {names : List (List Char)}
    (h : Reads afterWord s names) : ∀ w ∈ names, IsName w := by
  induction h with
  | done => exact nofun
  | pass _ _ ih => exact ih
  | take hheads _ ih => exact List.forall_mem_cons.mpr ⟨hheads.1.1, ih⟩

/-- The names that are read out of a text. -/
theorem reads_iff {afterWord : Bool} {s : List Char} {names : List (List Char)} :
    Reads afterWord s names ↔ namesFrom 0 afterWord s = names := by
  constructor
  · intro h
    induction h with
    | done => rfl
    | @pass afterWord c rest names hnone _ ih =>
      rw [← ih, namesFrom]
      split
      · rfl
      · rename_i hfree
        rcases nameAt_spec (c :: rest) with ⟨w, -, hheads⟩ | ⟨hname, -⟩
        · exact absurd hheads.1 (hnone.resolve_left hfree w)
        · rw [hname]
    | take hheads _ ih => rw [namesFrom_of_heads hheads, ih]
  · rintro rfl
    -- On the length of the text: a name that is read takes away its last character at least.
    induction hlength : s.length using Nat.strongRecOn generalizing s afterWord with
    | _ n ih =>
      subst hlength
      have hread (t : List Char) (ht : t.length < s.length) (again : Bool) :
          Reads again t (namesFrom 0 again t) :=
        ih t.length ht rfl
      cases s with
      | nil => exact .done
      | cons c rest =>
        have hrest := hread rest (Nat.lt_succ_self _) (isWord c)
        cases afterWord with
        | true => exact .pass (.inl rfl) hrest
        | false =>
          rcases nameAt_spec (c :: rest) with ⟨w, -, hheads⟩ | ⟨hname, hnone⟩
          · obtain ⟨front, last, hlast, -⟩ := hheads.1.1.ends
            obtain ⟨-, after, hsplit, -⟩ := hheads.1
            have hshorter : after.length < (c :: rest).length := by
              rw [hsplit, hlast, List.length_append, List.length_append, List.length_singleton]
              omega
            have hafter := hread after hshorter true
            rw [hsplit] at hheads ⊢
            rw [namesFrom_of_heads hheads]
            exact .take hheads hafter
          · have hpass : namesFrom 0 false (c :: rest) = namesFrom 0 (isWord c) rest := by
              rw [namesFrom, hname]
              rfl
            rw [hpass]
            exact .pass (.inr hnone) hrest

end Soql.Loose
