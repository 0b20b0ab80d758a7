import Soql.Proofs.Query.Values

namespace Soql.Text

open Token

def isPathChar (c : Char) : Bool :=
  isIdentRest c || c == '.'

def parts (c : Char) : Bool :=
  decide (c.toNat < 128) && !isPathChar c

def quiet (c : Char) : Bool :=
  decide (c.toNat < 128) && !isIdentFirst c

/-- A text that can be exchanged: it begins like an identifier and goes on like one, points included. -/
structure PathText (path : List Char) : Prop where
  first : ∃ a others, path = a :: others ∧ isIdentFirst a = true
  chars : ∀ d ∈ path, isPathChar d = true

theorem toNat_lt_of_pathChar {c : Char} (h : isPathChar c = true) : c.toNat < 128 := by
  rw [isPathChar, Bool.or_eq_true, beq_iff_eq] at h
  rcases h with h | rfl
  · exact toNat_lt_of_identRest h
  · decide

theorem PathText.plain {path : List Char} (h : PathText path) : '\\' ∉ path := by
  intro hmem
  exact absurd (h.chars _ hmem) (by decide)

theorem joinsPath_eq {c : Char} (h : c.toNat < 128) : joinsPath c = isPathChar c := by
  have hall : (joinsPath c == isPathChar c) = true :=
    of_ascii (p := fun c => joinsPath c == isPathChar c) (by decide) h
  exact eq_of_beq hall

theorem joinsPath_of_pathChar {c : Char} (h : isPathChar c = true) : joinsPath c = true := by
  rw [joinsPath_eq (toNat_lt_of_pathChar h), h]

theorem joinsPath_of_parts {c : Char} (h : parts c = true) : joinsPath c = false := by
  rw [parts, Bool.and_eq_true, decide_eq_true_eq, Bool.not_eq_true'] at h
  rw [joinsPath_eq h.1, h.2]

/-- Among ASCII characters a search that ignores case takes only the two cases of a letter for the
same. -/
theorem toUpper_of_sameFolded {a b : Char} (ha : a.toNat < 128) (hb : b.toNat < 128)
    (h : sameFolded a b = true) : a.toUpper = b.toUpper := by
  have hfold {c : Char} (hc : c.toNat < 128) : fold c = c.toLower ∧ c.toLower.toUpper = c.toUpper := by
    have hall := of_ascii (p := fun c => fold c == c.toLower && c.toLower.toUpper == c.toUpper)
      (by decide) hc
    simpa using hall
  rw [sameFolded, Bool.or_eq_true, beq_iff_eq, beq_iff_eq, (hfold ha).1, (hfold hb).1] at h
  rcases h with rfl | h
  · rfl
  · rw [← (hfold ha).2, ← (hfold hb).2, h]

theorem sameFolded_of_parts {d c : Char} (hd : isPathChar d = true) (hc : parts c = true) :
    sameFolded d c = false := by
  rw [← Bool.not_eq_true]
  intro hsame
  rw [parts, Bool.and_eq_true, decide_eq_true_eq, Bool.not_eq_true'] at hc
  have hupper := toUpper_of_sameFolded (toNat_lt_of_pathChar hd) hc.1 hsame
  -- Being written in a path does not depend on the letter case.
  have hkind (x : Char) : isPathChar x.toUpper = isPathChar x := by
    have hpoint : (x.toUpper == '.') = (x == '.') := by
      rw [Bool.eq_iff_iff, beq_iff_eq, beq_iff_eq]
      exact (toUpper_kinds x).2.2.2.1
    rw [isPathChar, isPathChar, (toUpper_kinds x).2.1, hpoint]
  rw [← hkind, hupper, hkind, hc.2] at hd
  cases hd

theorem sameFolded_of_quiet {a c : Char} (ha : isIdentFirst a = true) (hc : quiet c = true) :
    sameFolded a c = false := by
  rw [← Bool.not_eq_true]
  intro hsame
  rw [quiet, Bool.and_eq_true, decide_eq_true_eq, Bool.not_eq_true'] at hc
  have hupper := toUpper_of_sameFolded (toNat_lt_of_identFirst ha) hc.1 hsame
  rw [← (toUpper_kinds a).1, hupper, (toUpper_kinds c).1, hc.2] at ha
  cases ha

theorem length_le_of_beginsFolded {path s : List Char} (h : beginsFolded path s = true) :
    path.length ≤ s.length := by
  induction path generalizing s with
  | nil => exact Nat.zero_le _
  | cons a path ih =>
    cases s with
    | nil => cases h
    | cons b s =>
      rw [beginsFolded, Bool.and_eq_true] at h
      exact Nat.succ_le_succ (ih h.2)

section

variable {path : List Char} {new : List Char → List Char}

theorem pathStands_nil (hpath : PathText path) (free : Bool) : pathStands path free [] = false := by
  obtain ⟨a, others, rfl, -⟩ := hpath.first
  simp [pathStands, beginsFolded]

theorem beginsFolded_append (hpath : ∀ d ∈ path, isPathChar d = true) {c : Char} (hc : parts c = true)
    (s x : List Char) : beginsFolded path (s ++ c :: x) = beginsFolded path s := by
  induction path generalizing s with
  | nil => simp [beginsFolded]
  | cons a path ih =>
    cases s with
    | nil => simp [beginsFolded, sameFolded_of_parts (hpath a (by simp)) hc]
    | cons b s => simp [beginsFolded, ih fun d hd => hpath d (by simp [hd])]

/-- Whether a path stands at the start of a text is decided before the first separator. -/
theorem pathStands_append (hpath : PathText path) {c : Char} (hc : parts c = true) (free : Bool)
    (s x : List Char) : pathStands path free (s ++ c :: x) = pathStands path free s := by
  unfold pathStands
  rw [beginsFolded_append hpath.chars hc]
  by_cases hbegins : beginsFolded path s = true
  · rw [List.drop_append_of_le_length (length_le_of_beginsFolded hbegins)]
    cases s.drop path.length with
    | nil => simp [joinsPath_of_parts hc]
    | cons d rest => rfl
  · simp [hbegins]

theorem renameFrom_stands {a : Char} {others s : List Char} {free : Bool} {c : Char}
    (h : pathStands (a :: others) free (c :: s) = true) : renameFrom (a :: others) new 0 free (c :: s) =
      new ((c :: s).take (others.length + 1)) ++
        renameFrom (a :: others) new others.length (!joinsPath c) s := by
  simp only [renameFrom, h, if_true]

theorem renameFrom_fails {a : Char} {others s : List Char} {free : Bool} {c : Char}
    (h : pathStands (a :: others) free (c :: s) = false) : renameFrom (a :: others) new 0 free (c :: s) =
      c :: renameFrom (a :: others) new 0 (!joinsPath c) s := by
  simp only [renameFrom, h, Bool.false_eq_true, if_false]

theorem renameFrom_nil (hpath : PathText path) (free : Bool) : renameFrom path new 0 free [] = [] := by
  rw [renameFrom, pathStands_nil hpath]
  rfl

/-- At a separator the exchange begins anew. -/
theorem renameFrom_append (hpath : PathText path) {c : Char} (hc : parts c = true) (s x : List Char)
    {covered : Nat} (hcovered : covered ≤ s.length) (free : Bool) :
    renameFrom path new covered free (s ++ c :: x) =
      renameFrom path new covered free s ++ c :: renameFrom path new 0 true x := by
  obtain ⟨a, others, rfl, -⟩ := id hpath.first
  induction s generalizing covered free with
  | nil =>
    obtain rfl : covered = 0 := Nat.le_zero.mp hcovered
    have hstands := pathStands_append hpath hc free [] x
    rw [List.nil_append, pathStands_nil hpath] at hstands
    rw [List.nil_append, renameFrom_fails hstands, renameFrom_nil hpath, joinsPath_of_parts hc]
    rfl
  | cons d s ih =>
    cases covered with
    | succ covered =>
      rw [List.cons_append, renameFrom, renameFrom]
      exact ih (Nat.le_of_succ_le_succ hcovered) _
    | zero =>
      have hstands := pathStands_append hpath hc free (d :: s) x
      rw [List.cons_append] at hstands
      cases hstart : pathStands (a :: others) free (d :: s) with
      | true =>
        -- What the exchange covers ends before the separator, which no path holds.
        have hlength : others.length ≤ s.length := by
          simp only [pathStands, Bool.and_eq_true] at hstart
          simpa using length_le_of_beginsFolded hstart.1.2
        have hfound : (d :: (s ++ c :: x)).take (others.length + 1) = (d :: s).take (others.length + 1) := by
          rw [List.take_succ_cons, List.take_succ_cons, List.take_append_of_le_length hlength]
        rw [List.cons_append, renameFrom_stands (hstands.trans hstart), renameFrom_stands hstart,
          ih hlength, hfound, List.append_assoc]
      | false =>
        rw [List.cons_append, renameFrom_fails (hstands.trans hstart), renameFrom_fails hstart,
          ih (Nat.zero_le _)]
        rfl

theorem renameFrom_separators (hpath : PathText path) {sep : List Char}
    (hsep : ∀ c ∈ sep, parts c = true) (x : List Char) :
    renameFrom path new 0 true (sep ++ x) = sep ++ renameFrom path new 0 true x := by
  induction sep with
  | nil => rfl
  | cons c sep ih =>
    have hfirst : renameFrom path new 0 true ([] ++ c :: (sep ++ x)) =
        renameFrom path new 0 true [] ++ c :: renameFrom path new 0 true (sep ++ x) :=
      renameFrom_append hpath (hsep c (by simp)) [] (sep ++ x) (Nat.zero_le _) true
    rw [List.nil_append, renameFrom_nil hpath] at hfirst
    rw [List.cons_append, hfirst, ih fun d hd => hsep d (by simp [hd])]
    rfl

/-- A text of characters that begin no path stays as it is. -/
theorem renameFrom_quiet (hpath : PathText path) {s : List Char} (hs : ∀ c ∈ s, quiet c = true)
    (free : Bool) : renameFrom path new 0 free s = s := by
  induction s generalizing free with
  | nil => exact renameFrom_nil hpath free
  | cons c s ih =>
    obtain ⟨a, others, rfl, ha⟩ := id hpath.first
    have hstands : pathStands (a :: others) free (c :: s) = false := by
      simp [pathStands, beginsFolded, sameFolded_of_quiet ha (hs c (by simp))]
    rw [renameFrom_fails hstands, ih fun d hd => hs d (by simp [hd])]

/-- Where something joins the text from the left, nothing is exchanged up to the next separator. -/
theorem renameFrom_joined (hpath : PathText path) {s : List Char} (hs : ∀ c ∈ s, isPathChar c = true) :
    renameFrom path new 0 false s = s := by
  induction s with
  | nil => exact renameFrom_nil hpath false
  | cons c s ih =>
    obtain ⟨a, others, rfl, -⟩ := id hpath.first
    have hstands : pathStands (a :: others) false (c :: s) = false := rfl
    rw [renameFrom_fails hstands, joinsPath_of_pathChar (hs c (by simp))]
    exact congrArg (c :: ·) (ih fun d hd => hs d (by simp [hd]))

theorem renameFrom_covered (hpath : PathText path) (s : List Char) (free : Bool) :
    renameFrom path new s.length free s = [] := by
  induction s generalizing free with
  | nil => exact renameFrom_nil hpath free
  | cons c s ih =>
    rw [List.length_cons, renameFrom]
    exact ih _

/-- A path that begins another one of the same length is that one, in another letter case. -/
theorem upper_of_beginsFolded {s : List Char} (hpath : ∀ d ∈ path, isPathChar d = true)
    (hs : ∀ c ∈ s, isPathChar c = true) (h : beginsFolded path s = true) (hlength : s.length = path.length) :
    s.map Char.toUpper = path.map Char.toUpper := by
  induction path generalizing s with
  | nil =>
    rw [List.length_nil, List.length_eq_zero_iff] at hlength
    rw [hlength]
  | cons a path ih =>
    cases s with
    | nil => cases h
    | cons c s =>
      rw [beginsFolded, Bool.and_eq_true] at h
      have hfirst := toUpper_of_sameFolded (toNat_lt_of_pathChar (hpath a (by simp)))
        (toNat_lt_of_pathChar (hs c (by simp))) h.1
      have hrest := ih (fun d hd => hpath d (by simp [hd])) (fun d hd => hs d (by simp [hd])) h.2
        (Nat.succ.inj hlength)
      rw [List.map_cons, List.map_cons, hfirst, hrest]

end

/-! The exchange for a path that is written as it is. -/

section

variable {path new : List Char}

/-- The exchange writes nothing but what stood there before and the new path. -/
theorem mem_renameFrom {covered : Nat} {free : Bool} {s : List Char} {c : Char}
    (h : c ∈ renameFrom path (fun _ => new) covered free s) : c ∈ s ∨ c ∈ new := by
  -- Each step copies a character, passes one over, or writes the new path.
  fun_induction renameFrom path (fun _ => new) covered free s with
  | case1 => exact .inr h
  | case2 => exact .inl h
  | case3 free covered d rest ih =>
    rcases ih h with h | h
    · exact .inl (List.mem_cons_of_mem d h)
    · exact .inr h
  | case4 =>
    rename_i d rest hstands hnil ih
    subst hnil
    rcases List.mem_append.mp h with h | h
    · exact .inr h
    · rcases List.mem_cons.mp h with rfl | h
      · exact .inl List.mem_cons_self
      · exact (ih h).imp_left (List.mem_cons_of_mem d)
  | case5 =>
    rename_i d rest hstands a others hpath ih
    subst hpath
    rcases List.mem_append.mp h with h | h
    · exact .inr h
    · exact (ih h).imp_left (List.mem_cons_of_mem d)
  | case6 free d rest hstands ih =>
    rcases List.mem_cons.mp h with rfl | h
    · exact .inl List.mem_cons_self
    · exact (ih h).imp_left (List.mem_cons_of_mem d)

/-- A word is exchanged as a whole, and only if it is the path in some letter case. -/
theorem renameFrom_word (hpath : PathText path) {s : List Char} (hs : ∀ c ∈ s, isPathChar c = true) :
    (renameFrom path (fun _ => new) 0 true s = new ∧ s.map Char.toUpper = path.map Char.toUpper) ∨
      renameFrom path (fun _ => new) 0 true s = s := by
  cases s with
  | nil => exact .inr (renameFrom_nil hpath true)
  | cons c s =>
    obtain ⟨a, others, rfl, -⟩ := id hpath.first
    cases hstands : pathStands (a :: others) true (c :: s) with
    | true =>
      rw [renameFrom_stands hstands]
      rw [pathStands, Bool.true_and, Bool.and_eq_true, List.length_cons, List.drop_succ_cons] at hstands
      have hle := length_le_of_beginsFolded hstands.1
      -- A further character of the word would join the path.
      have hnil : s.drop others.length = [] := by
        cases hdrop : s.drop others.length with
        | nil => rfl
        | cons d rest =>
          have hmem : d ∈ s := List.mem_of_mem_drop (hdrop ▸ List.mem_cons_self)
          have hend := hstands.2
          rw [hdrop] at hend
          simp [joinsPath_of_pathChar (hs d (List.mem_cons_of_mem c hmem))] at hend
      have hlength : s.length = others.length := by
        rw [List.drop_eq_nil_iff] at hnil
        simp only [List.length_cons] at hle
        omega
      refine .inl ⟨?_, upper_of_beginsFolded hpath.chars hs hstands.1 (by simp [hlength])⟩
      rw [← hlength, renameFrom_covered hpath, List.append_nil]
    | false =>
      rw [renameFrom_fails hstands, joinsPath_of_pathChar (hs c (by simp))]
      exact .inr (congrArg (c :: ·) (renameFrom_joined hpath fun d hd => hs d (by simp [hd])))

theorem renameFrom_ne_nil (hpath : PathText path) {s : List Char} (hs : s ≠ []) (hnew : new ≠ [])
    (free : Bool) : renameFrom path (fun _ => new) 0 free s ≠ [] := by
  obtain ⟨a, others, rfl, -⟩ := id hpath.first
  cases s with
  | nil => exact absurd rfl hs
  | cons c s =>
    cases hstands : pathStands (a :: others) free (c :: s) with
    | true =>
      rw [renameFrom_stands hstands]
      exact List.append_ne_nil_of_left_ne_nil hnew _
    | false =>
      rw [renameFrom_fails hstands]
      exact List.cons_ne_nil _ _

end

section

variable {path new : String}

/-- A new path without a backslash is written as it is. -/
theorem toList_renamePath (hnew : '\\' ∉ new.toList) (expr : String) :
    (renamePath path new expr).toList = renameFrom path.toList (fun _ => new.toList) 0 true expr.toList := by
  rw [renamePath, Template.read_literal hnew, String.toList_ofList]
  exact congrArg (renameFrom path.toList · 0 true expr.toList) (funext (Template.fill_literal _))

/-- A new path that cannot be read is not taken; else something is written in place of what is found. -/
theorem renamePath_cases (path new : String) : (∀ expr, renamePath path new expr = expr) ∨
    ∃ fill, ∀ expr, (renamePath path new expr).toList = renameFrom path.toList fill 0 true expr.toList := by
  cases h : Template.read new.toList with
  | error e =>
    left
    intro expr
    rw [renamePath, h]
  | ok t =>
    right
    refine ⟨t.fill, fun expr => ?_⟩
    rw [renamePath, h, String.toList_ofList]

/-- The exchange acts on both sides of separators by itself. -/
theorem renamePath_append (hpath : PathText path.toList) {sep : String} (hne : sep ≠ "")
    (hsep : sep.toList.all parts = true) (s x : String) :
    renamePath path new (s ++ sep ++ x) = renamePath path new s ++ sep ++ renamePath path new x := by
  obtain hsame | ⟨fill, hfill⟩ := renamePath_cases path new
  · rw [hsame, hsame, hsame]
  apply String.toList_injective
  simp only [hfill, String.toList_append, List.append_assoc]
  cases hcs : sep.toList with
  | nil => exact absurd (String.toList_eq_nil_iff.mp hcs) hne
  | cons c cs =>
    rw [hcs, List.all_eq_true] at hsep
    rw [List.cons_append, renameFrom_append hpath (hsep c (by simp)) _ _ (Nat.zero_le _),
      renameFrom_separators hpath fun d hd => hsep d (by simp [hd])]
    rfl

theorem renamePath_empty (hpath : PathText path.toList) : renamePath path new "" = "" := by
  obtain hsame | ⟨fill, hfill⟩ := renamePath_cases path new
  · exact hsame ""
  apply String.toList_injective
  rw [hfill]
  exact renameFrom_nil hpath true

theorem renamePath_front (hpath : PathText path.toList) {sep : String} (hne : sep ≠ "")
    (hsep : sep.toList.all parts = true) (x : String) :
    renamePath path new (sep ++ x) = sep ++ renamePath path new x := by
  have hboth : renamePath path new ("" ++ sep ++ x) =
      renamePath path new "" ++ sep ++ renamePath path new x := renamePath_append hpath hne hsep "" x
  rwa [String.empty_append, renamePath_empty hpath, String.empty_append] at hboth

theorem renamePath_quiet (hpath : PathText path.toList) {s : String} (hs : s.toList.all quiet = true) :
    renamePath path new s = s := by
  obtain hsame | ⟨fill, hfill⟩ := renamePath_cases path new
  · exact hsame s
  apply String.toList_injective
  rw [hfill, renameFrom_quiet hpath (List.all_eq_true.mp hs)]

theorem renamePath_word (hpath : PathText path.toList) (hnew : '\\' ∉ new.toList) {w : String}
    (hw : ∀ c ∈ w.toList, isPathChar c = true) :
    (renamePath path new w = new ∧ w.map Char.toUpper = path.map Char.toUpper) ∨
      renamePath path new w = w := by
  have hword : (renameFrom path.toList (fun _ => new.toList) 0 true w.toList = new.toList ∧
      w.toList.map Char.toUpper = path.toList.map Char.toUpper) ∨
        renameFrom path.toList (fun _ => new.toList) 0 true w.toList = w.toList := renameFrom_word hpath hw
  rw [← toList_renamePath hnew, String.toList_inj, String.toList_inj] at hword
  refine hword.imp_left (And.imp_right ?_)
  intro hupper
  apply String.toList_injective
  rwa [String.toList_map, String.toList_map]

theorem renamePath_ne_empty (hpath : PathText path.toList) (hplain : '\\' ∉ new.toList) {s : String}
    (hs : s ≠ "") (hnew : new ≠ "") : renamePath path new s ≠ "" := by
  rw [ne_eq, ← String.toList_eq_nil_iff] at hs hnew ⊢
  rw [toList_renamePath hplain]
  exact renameFrom_ne_nil hpath hs hnew true

/-- The exchange acts on each of several texts in a row. -/
theorem renamePath_joined (hpath : PathText path.toList) {sep : String} (hne : sep ≠ "")
    (hsep : sep.toList.all parts = true) (texts : List String) :
    renamePath path new (joined sep texts) = joined sep (texts.map (renamePath path new)) := by
  unfold joined
  induction texts with
  | nil => exact renamePath_empty hpath
  | cons s texts ih =>
    cases texts with
    | nil => simp
    | cons s' texts =>
      rw [String.intercalate_cons_cons, renamePath_append hpath hne hsep, ih]
      simp only [List.map_cons, String.intercalate_cons_cons]

end

end Soql.Text
