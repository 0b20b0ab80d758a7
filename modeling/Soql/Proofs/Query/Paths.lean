import Soql.Proofs.Text.Lower
import Soql.Proofs.Text.Rename
import Soql.Query.Reference

namespace Soql.Text

theorem ne_point {part : List Char} (h : '.' ∉ part) : ∀ c ∈ part, (c == '.') = false := by
  intro c hc
  rw [beq_eq_false_iff_ne]
  rintro rfl
  exact h hc

/-- The parts of a path are those that it was put together from. -/
theorem pieces_point {first : List Char} {others : List (List Char)}
    (h : ∀ part ∈ first :: others, '.' ∉ part) :
    pieces (· == '.') (first ++ others.flatMap ('.' :: ·)) = first :: others := by
  induction others generalizing first with
  | nil =>
    rw [List.flatMap_nil, pieces_append_of_not_sep (ne_point (h first (by simp)))]
    simp [pieces]
  | cons second others ih =>
    have hrest := ih fun part hpart => h part (List.mem_cons_of_mem first hpart)
    rw [List.flatMap_cons, pieces_append_of_not_sep (ne_point (h first (by simp))), List.cons_append, pieces]
    simp [hrest]

/-- A path is its parts, each but the first after a point. -/
theorem exists_pieces (s : List Char) : ∃ first others, pieces (· == '.') s = first :: others ∧
    s = first ++ others.flatMap ('.' :: ·) := by
  induction s with
  | nil => exact ⟨[], [], rfl, rfl⟩
  | cons c s ih =>
    obtain ⟨first, others, hpieces, hs⟩ := ih
    by_cases hc : c = '.'
    · refine ⟨[], first :: others, ?_, ?_⟩
      · rw [pieces, if_pos (by simp [hc]), hpieces]
      · rw [List.flatMap_cons, List.cons_append, ← hs, hc]
        rfl
    · refine ⟨c :: first, others, ?_, ?_⟩
      · rw [pieces_cons_of_not_sep (by simp [hc]), hpieces]
        rfl
      · rw [List.cons_append, ← hs]

theorem toList_joined_point (first : String) (others : List String) :
    (joined "." (first :: others)).toList =
      first.toList ++ (others.map String.toList).flatMap ('.' :: ·) := by
  unfold joined
  induction others generalizing first with
  | nil => simp
  | cons second others ih =>
    rw [String.intercalate_cons_cons, String.toList_append, ih]
    simp

theorem not_mem_joined {c : Char} {sep : String} (hsep : c ∉ sep.toList) {parts : List String}
    (h : ∀ part ∈ parts, c ∉ part.toList) : c ∉ (joined sep parts).toList := by
  induction parts with
  | nil => simp [joined]
  | cons part parts ih =>
    obtain ⟨hpart, hparts⟩ := List.forall_mem_cons.mp h
    cases parts with
    | nil => simpa [joined] using hpart
    | cons next parts =>
      have hrest := ih hparts
      simp only [joined, String.intercalate_cons_cons, String.toList_append, List.mem_append] at hrest ⊢
      tauto

theorem joined_segments (path : String) : joined "." (segments path) = path := by
  obtain ⟨first, others, hpieces, hpath⟩ := exists_pieces path.toList
  apply String.toList_injective
  rw [segments, splitAt, hpieces, List.map_cons, toList_joined_point, List.map_map, hpath]
  simp

theorem segments_joined {segs : List String} (hne : segs ≠ []) (h : ∀ s ∈ segs, '.' ∉ s.toList) :
    segments (joined "." segs) = segs := by
  cases segs with
  | nil => exact absurd rfl hne
  | cons first others =>
    have hparts : ∀ part ∈ first.toList :: others.map String.toList, '.' ∉ part := by
      rw [← List.map_cons]
      intro part hpart
      obtain ⟨s, hs, rfl⟩ := List.mem_map.mp hpart
      exact h s hs
    rw [segments, splitAt, toList_joined_point, pieces_point hparts, ← List.map_cons, List.map_map]
    simp

theorem not_mem_segments {c : Char} {path s : String} (h : c ∉ path.toList) (hs : s ∈ segments path) :
    c ∉ s.toList := by
  obtain ⟨piece, hpiece, rfl⟩ := List.mem_map.mp hs
  rw [String.toList_ofList]
  exact fun hc => h (mem_of_mem_pieces hpiece hc)

/-- The letter case of a path is that of its parts. -/
theorem segments_toUpper (path : String) :
    segments (path.map Char.toUpper) = (segments path).map (·.map Char.toUpper) := by
  have hmap (s : List Char) : s.map Char.toUpper = s.flatMap fun c => [c.toUpper] := by
    induction s with
    | nil => rfl
    | cons c s ih => rw [List.map_cons, ih, List.flatMap_cons, List.singleton_append]
  have hpieces := pieces_flatMap (p := (· == '.')) (f := fun c => [c.toUpper])
    (by
      intro c hc
      rw [beq_iff_eq.mp hc]
      decide)
    (by
      intro c hc d hd
      rw [List.mem_singleton.mp hd, beq_eq_false_iff_ne] at *
      exact fun hpoint => hc ((Token.toUpper_kinds c).2.2.2.1.mp hpoint))
    path.toList
  unfold segments splitAt
  rw [String.toList_map, hmap, hpieces, List.map_map, List.map_map]
  apply List.map_congr_left
  intro piece hpiece
  apply String.toList_injective
  simp [hmap]

end Soql.Text

namespace Soql

open Text Token

def isPath (w : String) : Bool :=
  (segments w).all isIdent

theorem isIdent_iff {w : String} :
    isIdent w = true ↔ ∃ c rest, w.toList = c :: rest ∧ isIdentFirst c = true ∧
      ∀ d ∈ rest, isIdentRest d = true := by
  unfold isIdent
  cases w.toList with
  | nil => simp
  | cons c rest => simp

theorem identRest_of_isIdent {w : String} (h : isIdent w = true) :
    ∀ c ∈ w.toList, isIdentRest c = true := by
  obtain ⟨c, rest, hw, hc, hrest⟩ := isIdent_iff.mp h
  intro d hd
  rw [hw] at hd
  rcases List.mem_cons.mp hd with rfl | hd
  · exact identRest_of_identFirst hc
  · exact hrest d hd

theorem point_not_mem_of_isIdent {w : String} (h : isIdent w = true) : '.' ∉ w.toList :=
  fun hpoint => absurd (identRest_of_isIdent h '.' hpoint) (by decide)

theorem isPath_joined {segs : List String} (hne : segs ≠ []) (h : ∀ s ∈ segs, isIdent s = true) :
    isPath (joined "." segs) = true := by
  rw [isPath, segments_joined hne fun s hs => point_not_mem_of_isIdent (h s hs), List.all_eq_true]
  exact h

theorem isPath_of_isIdent {w : String} (h : isIdent w = true) : isPath w = true := by
  have hone : joined "." [w] = w := by simp [joined]
  rw [← hone]
  exact isPath_joined (by simp) (by simpa using h)

/-- The parts of a path, taken apart as characters. -/
theorem exists_parts {w : String} (h : isPath w = true) : ∃ first others,
    w.toList = first ++ others.flatMap ('.' :: ·) ∧
      ∀ part ∈ first :: others, isIdent (.ofList part) = true := by
  obtain ⟨first, others, hpieces, hw⟩ := exists_pieces w.toList
  refine ⟨first, others, hw, ?_⟩
  rw [isPath, segments, splitAt, hpieces, List.all_eq_true] at h
  intro part hpart
  exact h _ (List.mem_map.mpr ⟨part, hpart, rfl⟩)

/-- What follows the first part of a path does not go on with it. -/
theorem identRest_head_parts (others : List (List Char)) :
    ∀ d ∈ (others.flatMap ('.' :: ·)).head?, isIdentRest d = false := by
  intro d hd
  cases others with
  | nil => cases hd
  | cons part others =>
    obtain rfl : '.' = d := by simpa using hd
    decide

theorem dottedRest_parts {others : List (List Char)}
    (h : ∀ part ∈ others, isIdent (.ofList part) = true) :
    dottedRest (others.flatMap ('.' :: ·)) = (others.flatMap ('.' :: ·), []) := by
  induction others with
  | nil => exact dottedRest_eq_nil (by simp)
  | cons part others ih =>
    obtain ⟨c, run, hpart, hc, hrun⟩ := isIdent_iff.mp (h part (by simp))
    rw [String.toList_ofList] at hpart
    have hrest := ih fun p hp => h p (by simp [hp])
    obtain ⟨htake, hdrop⟩ := takeWhile_append_stop run hrun (identRest_head_parts others)
    rw [List.flatMap_cons, hpart, List.cons_append, List.cons_append, dottedRest]
    simp only [hc, if_true, htake, hdrop, hrest, List.cons_append]

/-- A path is read to its end. -/
theorem dotted_of_isPath {w : String} (h : isPath w = true) : dotted w.toList = some (w.toList, []) := by
  obtain ⟨first, others, hw, hparts⟩ := exists_parts h
  obtain ⟨c, run, hfirst, hc, hrun⟩ := isIdent_iff.mp (hparts first (by simp))
  rw [String.toList_ofList] at hfirst
  have hrest := dottedRest_parts fun part hpart => hparts part (List.mem_cons_of_mem first hpart)
  obtain ⟨htake, hdrop⟩ := takeWhile_append_stop run hrun (identRest_head_parts others)
  rw [hw, hfirst, List.cons_append, dotted]
  simp [hc, htake, hdrop, hrest]

/-- A path is one token. -/
theorem whole_of_isPath {w : String} (h : isPath w = true) : (word w).Whole := by
  rw [whole_word_iff, nameLength, dotted_of_isPath h]
  simp [countLength]

theorem pathText_of_isPath {w : String} (h : isPath w = true) : PathText w.toList := by
  obtain ⟨first, others, hw, hparts⟩ := exists_parts h
  have hchars : ∀ part ∈ first :: others, ∀ d ∈ part, isIdentRest d = true := by
    intro part hpart d hd
    have hident := identRest_of_isIdent (hparts part hpart)
    rw [String.toList_ofList] at hident
    exact hident d hd
  obtain ⟨c, run, hfirst, hc, -⟩ := isIdent_iff.mp (hparts first (by simp))
  rw [String.toList_ofList] at hfirst
  refine ⟨⟨c, _, by rw [hw, hfirst]; rfl, hc⟩, ?_⟩
  intro d hd
  rw [hw, List.mem_append, List.mem_flatMap] at hd
  rcases hd with hd | ⟨part, hpart, hd⟩
  · simp [isPathChar, hchars first (by simp) d hd]
  · rcases List.mem_cons.mp hd with rfl | hd
    · decide
    · simp [isPathChar, hchars part (by simp [hpart]) d hd]

theorem ne_empty_of_isPath {w : String} (h : isPath w = true) : w ≠ "" := by
  rintro rfl
  revert h
  decide

/-- What is read from a text as identifiers joined by points is a path. -/
theorem isPath_dottedRest {run : List Char} (s : List Char) (h : isIdent (.ofList run) = true) :
    isPath (.ofList (run ++ (dottedRest s).1)) = true := by
  fun_induction dottedRest s generalizing run with
  | case1 c rest hc _ more after found ih =>
    have hnext : isIdent (.ofList (c :: rest.takeWhile isIdentRest)) = true := by
      rw [isIdent_iff]
      refine ⟨c, rest.takeWhile isIdentRest, String.toList_ofList, hc, ?_⟩
      intro d hd
      exact List.mem_takeWhile_imp hd
    have hrest := ih hnext
    rw [found] at hrest
    have hpoint := point_not_mem_of_isIdent h
    rw [String.toList_ofList] at hpoint
    have hfree := ne_point hpoint
    rw [isPath, segments, splitAt, String.toList_ofList] at hrest ⊢
    have hpieces : pieces (· == '.') (run ++ ('.' :: c :: rest.takeWhile isIdentRest ++ more)) =
        run :: pieces (· == '.') (c :: rest.takeWhile isIdentRest ++ more) := by
      rw [pieces_append_of_not_sep hfree, List.cons_append, pieces]
      simp
    rw [hpieces, List.map_cons, List.all_cons, h, hrest]
    rfl
  | case2 =>
    rw [List.append_nil]
    exact isPath_of_isIdent h
  | case3 =>
    rw [List.append_nil]
    exact isPath_of_isIdent h

theorem isPath_of_dotted {s path after : List Char} (h : dotted s = some (path, after)) :
    isPath (.ofList path) = true := by
  cases s with
  | nil => cases h
  | cons c rest =>
    simp only [dotted] at h
    split at h
    · rename_i hc
      cases h
      apply isPath_dottedRest
      rw [isIdent_iff]
      refine ⟨c, rest.takeWhile isIdentRest, String.toList_ofList, hc, ?_⟩
      intro d hd
      exact List.mem_takeWhile_imp hd
    · cases h

/-- A name without a count is a path. -/
theorem isPath_of_whole {w : String} (h : (word w).Whole) (hcolon : ':' ∉ w.toList) :
    isPath w = true := by
  rw [whole_word_iff] at h
  obtain ⟨⟨path, after⟩, hdotted, hlength⟩ := Option.map_eq_some_iff.mp h
  obtain ⟨hsplit, -⟩ := dotted_append hdotted
  -- Without a colon there is no count, so nothing is left after the path.
  have hcount : countLength after = 0 := by
    unfold countLength
    split
    · rename_i rest
      exact absurd (hsplit ▸ List.mem_append_right path List.mem_cons_self) hcolon
    · rfl
  have hafter : after = [] := by
    rw [← hsplit, List.length_append] at hlength
    simp only [hcount] at hlength
    exact List.length_eq_zero_iff.mp (by omega)
  rw [hafter, List.append_nil] at hsplit
  rw [hsplit] at hdotted
  have hpath := isPath_of_dotted hdotted
  rwa [String.ofList_toList] at hpath

/-- The paths that a text mentions are paths. -/
theorem isPath_of_mem_dottedPaths {s path : List Char} (h : path ∈ dottedPaths s) :
    isPath (.ofList path) = true := by
  fun_induction dottedPaths s with
  | case1 => cases h
  | case2 =>
    rename_i ih
    exact ih h
  | case3 =>
    rename_i hdotted _ _ ih
    rcases List.mem_cons.mp h with rfl | h
    · exact isPath_of_dotted hdotted
    · exact ih h
  | case4 c rest hnone ih => exact ih h

theorem isPath_of_mem_fieldPaths {path expr : String} (h : path ∈ fieldPaths expr) : isPath path = true := by
  obtain ⟨hmem, -⟩ := List.mem_filter.mp h
  obtain ⟨chars, hchars, rfl⟩ := List.mem_map.mp hmem
  exact isPath_of_mem_dottedPaths hchars

def reservedWords : List String :=
  Query.clauseWords ++ ["TYPEOF", "NOT", "EXISTS", "SELECT", "ROLLUP", "CUBE"]

def endsReserved (path : String) : Bool :=
  reservedWords.contains ((lastSegment path).map Char.toUpper)

/-- A path that is taken for no reserved word, and neither is what is left of it when parts are taken
away in front. -/
def isProper (path : String) : Bool :=
  isPath path && !endsReserved path

theorem lastSegment_toUpper (path : String) :
    lastSegment (path.map Char.toUpper) = (lastSegment path).map Char.toUpper := by
  rw [lastSegment, segments_toUpper, lastSegment, List.getLastD_eq_getLast?, List.getLastD_eq_getLast?,
    List.getLast?_map]
  cases (segments path).getLast? with
  | none => simp
  | some last => rfl

theorem endsReserved_congr {a b : String} (h : a.map Char.toUpper = b.map Char.toUpper) :
    endsReserved a = endsReserved b := by
  rw [endsReserved, endsReserved, ← lastSegment_toUpper, ← lastSegment_toUpper, h]

/-- A proper path is no reserved word itself. -/
theorem upper_of_isProper {w : String} (h : isProper w = true) : (word w).upper ∉ reservedWords := by
  intro hmem
  -- A reserved word is its own last part.
  have hlast : ∀ r ∈ reservedWords, lastSegment r = r := by decide
  rw [isProper, Bool.and_eq_true, Bool.not_eq_true', endsReserved, ← lastSegment_toUpper] at h
  have hcontains : reservedWords.contains (lastSegment (w.map Char.toUpper)) = true := by
    rw [List.contains_iff_mem]
    change lastSegment (word w).upper ∈ reservedWords
    rwa [hlast _ hmem]
  rw [hcontains] at h
  cases h.2

theorem lastSegment_joined {segs : List String} (h : ∀ s ∈ segs, isIdent s = true) {last : String}
    (hlast : segs.getLast? = some last) : lastSegment (joined "." segs) = last := by
  have hne : segs ≠ [] := by
    rintro rfl
    cases hlast
  rw [lastSegment, segments_joined hne fun s hs => point_not_mem_of_isIdent (h s hs),
    List.getLastD_eq_getLast?, hlast]
  rfl

theorem lastSegment_of_isIdent {w : String} (h : isIdent w = true) : lastSegment w = w := by
  have hone : lastSegment (joined "." [w]) = w := lastSegment_joined (by simpa using h) rfl
  simpa [joined] using hone

/-- What follows the first point of a proper path is proper. -/
theorem isProper_afterFirstPoint {w : String} (h : isProper w = true) (hdots : 1 < (segments w).length) :
    isProper (afterFirstPoint w) = true := by
  rw [isProper, Bool.and_eq_true, Bool.not_eq_true'] at h
  rw [isPath, List.all_eq_true] at h
  have hrest : ∀ s ∈ (segments w).drop 1, isIdent s = true := fun s hs => h.1 s (List.mem_of_mem_drop hs)
  have hne : (segments w).drop 1 ≠ [] := by
    rw [ne_eq, List.drop_eq_nil_iff]
    omega
  have hlast : ((segments w).drop 1).getLast? = (segments w).getLast? := by
    rw [List.getLast?_drop, if_neg (by omega)]
  have hsame : lastSegment (afterFirstPoint w) = lastSegment w := by
    rw [afterFirstPoint, lastSegment, segments_joined hne fun s hs => point_not_mem_of_isIdent (hrest s hs),
      lastSegment, List.getLastD_eq_getLast?, List.getLastD_eq_getLast?, hlast]
  rw [isProper, afterFirstPoint, isPath_joined hne hrest, ← afterFirstPoint, endsReserved, hsame,
    ← endsReserved, h.2]
  rfl

theorem toNat_lt_of_isPath {w : String} (h : isPath w = true) : ∀ c ∈ w.toList, c.toNat < 128 :=
  fun c hc => toNat_lt_of_pathChar ((pathText_of_isPath h).chars c hc)

theorem sigmaFree_of_isPath {w : String} (h : isPath w = true) : SigmaFree w := by
  intro c hc
  have := toNat_lt_of_isPath h c hc
  omega

/-- Two paths with one text in lower case have one in capitals. -/
theorem upper_of_sameLower {a b : String} (ha : isPath a = true) (hb : isPath b = true)
    (h : sameLower a b = true) : a.map Char.toUpper = b.map Char.toUpper := by
  have hcase {w : String} (hw : isPath w = true) :
      w.toList.map Char.toUpper = (lower w).toList.map Char.toUpper := by
    have hascii := toNat_lt_of_isPath hw
    rw [toList_lower (sigmaFree_of_isPath hw)]
    generalize w.toList = s at hascii
    induction s with
    | nil => rfl
    | cons c s ih =>
      have hchar : lowerRun c = [c.toLower] ∧ c.toLower.toUpper = c.toUpper := by
        have hall := of_ascii (p := fun c => lowerRun c == [c.toLower] && c.toLower.toUpper == c.toUpper)
          (by decide) (hascii c (by simp))
        simpa using hall
      rw [List.map_cons, List.flatMap_cons, hchar.1, ih fun d hd => hascii d (by simp [hd])]
      simp [hchar.2]
  rw [sameLower, beq_iff_eq] at h
  apply String.toList_injective
  rw [String.toList_map, String.toList_map, hcase ha, hcase hb, h]

/-- A path that may take the place of another one: it ends in a reserved word only if that one does. -/
structure Renames (old new : String) : Prop where
  source : isPath old = true
  target : isPath new = true
  ends : endsReserved new = true → endsReserved old = true

/-- A path is exchanged for a path. -/
theorem Renames.path {old new w : String} (h : Renames old new) (hw : isPath w = true) :
    isPath (renamePath old new w) = true := by
  rcases renamePath_word (pathText_of_isPath h.source) (pathText_of_isPath h.target).plain
    (pathText_of_isPath hw).chars with ⟨hnew, -⟩ | hsame
  · rw [hnew, h.target]
  · rw [hsame, hw]

theorem Renames.proper {old new w : String} (h : Renames old new) (hw : isProper w = true) :
    isProper (renamePath old new w) = true := by
  have hpath := h.path (w := w)
  rw [isProper, Bool.and_eq_true, Bool.not_eq_true'] at hw ⊢
  refine ⟨hpath hw.1, ?_⟩
  rcases renamePath_word (pathText_of_isPath h.source) (pathText_of_isPath h.target).plain
    (pathText_of_isPath hw.1).chars with ⟨hnew, hupper⟩ | hsame
  · rw [hnew, ← Bool.not_eq_true]
    intro hends
    rw [endsReserved_congr hupper, h.ends hends] at hw
    cases hw.2
  · rw [hsame, hw.2]

end Soql
