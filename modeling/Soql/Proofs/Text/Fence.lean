import Mathlib.Data.List.Infix
import Soql.Proofs.Text.Swap
import Soql.Text.Fence

namespace Soql.Text

def tick : Char :=
  Char.ofNat 0x60

theorem eq_tick_of_mem_fence {c : Char} (h : c ∈ fence) : c = tick :=
  List.eq_of_mem_replicate h

/-- The tag of a block that holds a query, in any letter case. -/
def IsQueryTag (tag : List Char) : Prop :=
  ∃ name ∈ ["soql", "sql"], tag.map fold = name.toList.map fold

/-- A fenced block that holds a query is opened here: a fence with such a tag, and nothing else on its line. -/
def OpensQuery (s : List Char) : Prop :=
  ∃ tag blanks rest, IsQueryTag tag ∧ (∀ c ∈ blanks, isBlank c = true) ∧
    s = fence ++ (tag ++ (blanks ++ '\n' :: rest))

theorem ne_tick_of_isBlank {c : Char} (h : isBlank c = true) : c ≠ tick := by
  rintro rfl
  revert h
  decide

theorem IsQueryTag.ne_tick {tag : List Char} (h : IsQueryTag tag) : ∀ c ∈ tag, c ≠ tick := by
  have hnames : ∀ name ∈ ["soql", "sql"], fold tick ∉ name.toList.map fold := by decide
  obtain ⟨name, hname, hfold⟩ := h
  rintro c hc rfl
  exact hnames name hname (hfold ▸ List.mem_map_of_mem hc)

/-- A text begins with a tag that writes a name. -/
theorem beginsFolded_tag {name tag : List Char} (h : tag.map fold = name.map fold) (rest : List Char) :
    beginsFolded name (tag ++ rest) = true ∧ (tag ++ rest).drop name.length = rest := by
  have hlength : tag.length = name.length := by simpa using congrArg List.length h
  rw [beginsFolded_iff, ← hlength, List.take_left, List.drop_left]
  exact ⟨⟨h.symm, by simp⟩, rfl⟩

/-- The first line end behind some blanks is one of the blanks in front. -/
theorem newline_mem_takeWhile {blanks : List Char} (h : ∀ c ∈ blanks, isBlank c = true) (rest : List Char) :
    '\n' ∈ (blanks ++ '\n' :: rest).takeWhile isBlank := by
  rw [List.takeWhile_append_of_pos h, List.takeWhile_cons_of_pos (by decide)]
  simp

/-- What follows the last line end of the blanks in front, where there is one. -/
theorem afterLastNewline_eq_some {s : List Char} (h : '\n' ∈ s.takeWhile isBlank) :
    ∃ lead t, afterLastNewline s = some t ∧ s = lead ++ '\n' :: t ∧ ∀ c ∈ lead, isBlank c = true := by
  obtain ⟨kept, front, hreverse, hkept⟩ := List.eq_append_cons_of_mem (List.mem_reverse.mpr h)
  have hblanks : s.takeWhile isBlank = front.reverse ++ '\n' :: kept.reverse := by
    rw [← List.reverse_reverse (s.takeWhile isBlank), hreverse]
    simp
  have hs : s = front.reverse ++ '\n' :: (kept.reverse ++ s.dropWhile isBlank) := by
    conv_lhs => rw [← List.takeWhile_append_dropWhile (p := isBlank) (l := s), hblanks]
    simp
  have hrun : (s.takeWhile isBlank).reverse.takeWhile (· != '\n') = kept := by
    rw [hreverse]
    apply (Token.takeWhile_append_stop kept _ _).1
    · exact fun c hc => bne_iff_ne.mpr fun hend => hkept (hend ▸ hc)
    · simp
  have hlength : (s.takeWhile isBlank).length - kept.length = front.reverse.length + 1 := by
    simp only [hblanks, List.length_append, List.length_cons, List.length_reverse]
    omega
  refine ⟨front.reverse, kept.reverse ++ s.dropWhile isBlank, ?_, hs, fun c hc => ?_⟩
  · have hdrop : s.drop (front.reverse.length + 1) = kept.reverse ++ s.dropWhile isBlank := by
      conv_lhs => rw [hs]
      rw [List.drop_length_add_append, List.drop_one, List.tail_cons]
    simp only [afterLastNewline, hrun, hlength, hdrop, List.contains_iff_mem, h, if_true]
  · exact List.mem_takeWhile_imp (hblanks ▸ List.mem_append_left _ hc)

/-- Whether a block is opened is told by the names of the query language and the blanks behind them. -/
theorem opensQuery_iff {s : List Char} : OpensQuery s ↔ fence <+: s ∧ ∃ name ∈ ["soql", "sql"],
    beginsFolded name.toList (s.drop fence.length) = true ∧
      '\n' ∈ ((s.drop fence.length).drop name.toList.length).takeWhile isBlank := by
  constructor
  · rintro ⟨tag, blanks, rest, ⟨name, hname, hfold⟩, hblanks, rfl⟩
    obtain ⟨hbegins, hdrop⟩ := beginsFolded_tag hfold (blanks ++ '\n' :: rest)
    refine ⟨List.prefix_append _ _, name, hname, ?_⟩
    rw [List.drop_left, hdrop]
    exact ⟨hbegins, newline_mem_takeWhile hblanks rest⟩
  · rintro ⟨⟨after, rfl⟩, name, hname, hbegins, hend⟩
    rw [List.drop_left] at hbegins hend
    obtain ⟨blanks, rest, -, hrest, hblanks⟩ := afterLastNewline_eq_some hend
    refine ⟨after.take name.toList.length, blanks, rest, ⟨name, hname, ?_⟩, hblanks, ?_⟩
    · exact (beginsFolded_iff.mp hbegins).1.symm
    · rw [← hrest, List.take_append_drop]

instance : DecidablePred OpensQuery :=
  fun _ => decidable_of_iff' _ opensQuery_iff

section Blocks

variable {x : List Char}

/-- A text without a fence that does not end with a part of one is cut off at the fence behind it. -/
theorem cutAtFirst_fence {body : List Char} (hfree : ¬fence <:+: body) (hends : ∀ c ∈ body.getLast?, c ≠ tick) :
    cutAtFirst fence (body ++ (fence ++ x)) = some (body, x) := by
  induction body with
  | nil => rfl
  | cons c body ih =>
    have hnot : ¬fence <+: c :: (body ++ (fence ++ x)) := by
      intro hfence
      -- Either the fence lies within the body, or the body within the fence.
      rcases List.prefix_or_prefix_of_prefix hfence (List.prefix_append (c :: body) (fence ++ x)) with hin | hout
      · exact hfree hin.isInfix
      · have hlast := List.getLast_mem (List.cons_ne_nil c body)
        exact hends _ (List.getLast?_eq_some_getLast _) (eq_tick_of_mem_fence (hout.mem hlast))
    have hcut : cutAtFirst fence (body ++ (fence ++ x)) = some (body, x) := by
      apply ih fun h => hfree (List.infix_cons h)
      intro d hd
      cases body with
      | nil => cases hd
      | cons e body => exact hends d (by rwa [List.getLast?_cons_cons])
    rw [List.cons_append, cutAtFirst, if_neg (by rwa [List.isPrefixOf_iff_prefix]), hcut]
    rfl

/-- What has no character of a fence ends in front of the fence. -/
theorem prefix_of_append_fence {head rest front : List Char} (hhead : ∀ c ∈ head, c ≠ tick)
    (h : head ++ rest = front ++ (fence ++ x)) : head <+: front := by
  rcases List.prefix_or_prefix_of_prefix ⟨rest, h⟩ (List.prefix_append front _) with hin | ⟨w, rfl⟩
  · exact hin
  · rw [List.append_assoc, List.append_cancel_left_eq] at h
    cases w with
    | nil => rw [List.append_nil]
    | cons c w =>
      obtain rfl : c = tick := (List.cons.inj h).1
      exact absurd rfl (hhead tick (by simp))

/-- An opening that begins in front of a fence ends in front of it: its own fence cannot be made of characters
on both sides, and no other character of it is one of a fence. -/
theorem opening_before_fence {front head rest : List Char} (hfront : front ≠ []) (hhead : ∀ c ∈ head, c ≠ tick)
    (hne : head ≠ []) (h : front ++ (fence ++ x) = fence ++ (head ++ rest)) :
    ∃ rest', front = fence ++ (head ++ rest') := by
  have hstop (s : List Char) : tick :: s ≠ head ++ rest := by
    obtain ⟨c, head, rfl⟩ := List.exists_cons_of_ne_nil hne
    intro heq
    exact hhead c (by simp) (List.cons.inj heq).1.symm
  have hfence : fence = [tick, tick, tick] := rfl
  rcases front with _ | ⟨a, _ | ⟨b, _ | ⟨d, front⟩⟩⟩
  · exact absurd rfl hfront
  · obtain ⟨-, hshort⟩ : a = tick ∧ tick :: x = head ++ rest := by simpa [hfence] using h
    exact absurd hshort (hstop _)
  · obtain ⟨-, -, hshort⟩ : a = tick ∧ b = tick ∧ tick :: tick :: x = head ++ rest := by simpa [hfence] using h
    exact absurd hshort (hstop _)
  · obtain ⟨rfl, rfl, rfl, hbehind⟩ : a = tick ∧ b = tick ∧ d = tick ∧
        head ++ rest = front ++ (fence ++ x) := by simpa [hfence, eq_comm] using h
    obtain ⟨rest', rfl⟩ := prefix_of_append_fence hhead hbehind
    exact ⟨rest', rfl⟩

theorem OpensQuery.of_append {front : List Char} (hfront : front ≠ []) (h : OpensQuery (front ++ (fence ++ x))) :
    OpensQuery front := by
  obtain ⟨tag, blanks, rest, htag, hblanks, heq⟩ := h
  have hhead : ∀ c ∈ tag ++ blanks ++ ['\n'], c ≠ tick := by
    simp only [List.mem_append, List.mem_singleton]
    rintro c ((hc | hc) | rfl)
    · exact htag.ne_tick c hc
    · exact ne_tick_of_isBlank (hblanks c hc)
    · decide
  have hopening : front ++ (fence ++ x) = fence ++ (tag ++ blanks ++ ['\n'] ++ rest) := by simpa using heq
  obtain ⟨rest', hrest⟩ := opening_before_fence hfront hhead (by simp) hopening
  exact ⟨tag, blanks, rest', htag, hblanks, by simpa using hrest⟩

theorem newline_of_blockContent {s : List Char} (h : blockContent s ≠ none) : '\n' ∈ s.takeWhile isBlank := by
  by_contra hnot
  have hnone : afterLastNewline s = none := by
    simp only [afterLastNewline, List.contains_iff_mem, hnot, if_false]
  rw [blockContent, hnone] at h
  exact h rfl

theorem opensQuery_of_taggedBlock {s : List Char} (h : taggedBlock s ≠ none) : OpensQuery s := by
  unfold taggedBlock at h
  split at h
  case isFalse => exact absurd rfl h
  case isTrue hfence =>
    rw [ne_eq, List.findSome?_eq_none_iff] at h
    push Not at h
    obtain ⟨name, hname, hblock⟩ := h
    split at hblock
    case isFalse => exact absurd rfl hblock
    case isTrue hbegins =>
      obtain ⟨word, hword, rfl⟩ := List.mem_map.mp hname
      rw [ne_eq, Option.map_eq_none_iff] at hblock
      exact opensQuery_iff.mpr ⟨List.isPrefixOf_iff_prefix.mp hfence, word, hword, hbegins,
        newline_of_blockContent hblock⟩

/-- A block in front of which no other one is opened is the first. -/
theorem firstTaggedBlock_append {prose : List Char} (h : ∀ s, s <:+ prose → ¬OpensQuery s) :
    firstTaggedBlock (prose ++ (fence ++ x)) = firstTaggedBlock (fence ++ x) := by
  induction prose with
  | nil => rfl
  | cons c prose ih =>
    have hnone : taggedBlock (c :: (prose ++ (fence ++ x))) = none := by
      by_contra hsome
      have hopens := opensQuery_of_taggedBlock hsome
      exact h _ List.suffix_rfl (OpensQuery.of_append (List.cons_ne_nil c prose) hopens)
    rw [List.cons_append, firstTaggedBlock, hnone, Option.orElse_none]
    exact ih fun s hs => h s (hs.trans (List.suffix_cons c prose))

theorem firstTaggedBlock_of_some {s content : List Char} (h : taggedBlock s = some content) :
    firstTaggedBlock s = some content := by
  cases s with
  | nil => cases h
  | cons c s =>
    rw [firstTaggedBlock, h]
    rfl

/-- A tag is known by the name that it writes. -/
theorem taggedBlock_of_tag {tag rest content after : List Char} (htag : IsQueryTag tag)
    (hcontent : blockContent rest = some (content, after)) :
    taggedBlock (fence ++ (tag ++ rest)) = some content := by
  obtain ⟨name, hname, hfold⟩ := htag
  obtain ⟨hbegins, hdrop⟩ := beginsFolded_tag hfold rest
  have hblock : (blockContent ((tag ++ rest).drop name.toList.length)).map Prod.fst = some content := by
    rw [hdrop, hcontent]
    rfl
  have hstarts : fence.isPrefixOf (fence ++ (tag ++ rest)) = true :=
    List.isPrefixOf_iff_prefix.mpr (List.prefix_append _ _)
  simp only [taggedBlock, hstarts, if_true, List.drop_left, List.map_cons, List.findSome?_cons]
  rcases List.mem_pair.mp hname with rfl | rfl
  · rw [if_pos hbegins, hblock]
  · -- The two names differ in their second letters.
    have hother : ¬beginsFolded "soql".toList (tag ++ rest) = true := by
      have hsql : "sql".toList = ['s', 'q', 'l'] := rfl
      rw [hsql] at hfold
      obtain ⟨a, b, c, rfl⟩ := List.length_eq_three.mp (by simpa using congrArg List.length hfold)
      have hb : fold b = fold 'q' := (List.cons.inj (List.cons.inj hfold).2).1
      have ho : fold 'o' ≠ fold 'q' := by decide
      simp [beginsFolded, sameFolded_iff, hb, ho]
    rw [if_neg hother, if_pos hbegins, hblock]

theorem fence_infix_of_front {front s : List Char} (hfront : ∀ c ∈ front, c ≠ tick) (h : fence <:+: front ++ s) :
    fence <:+: s := by
  induction front with
  | nil => exact h
  | cons c front ih =>
    obtain ⟨hc, hfront⟩ := List.forall_mem_cons.mp hfront
    rcases List.infix_cons_iff.mp h with hbegins | hrest
    · exact absurd (List.cons_prefix_cons.mp hbegins).1.symm hc
    · exact ih hfront hrest

theorem fence_infix_of_back {c : Char} {s : List Char} (hc : c ≠ tick) (h : fence <:+: s ++ [c]) :
    fence <:+: s := by
  rcases List.infix_concat_iff.mp h with hends | hrest
  · rcases List.suffix_concat_iff.mp hends with hnil | ⟨t, heq, -⟩
    · cases hnil
    · exact absurd (eq_tick_of_mem_fence (heq ▸ List.mem_append_right t (List.mem_singleton_self c))) hc
  · exact hrest

theorem dropEnd_append {p : Char → Bool} {t : List Char} (ht : ∀ c ∈ t, p c = true) (s : List Char) :
    dropEnd p (s ++ t) = dropEnd p s := by
  rw [dropEnd, List.reverse_append, List.dropWhile_append_of_pos (by simpa using ht)]
  rfl

theorem trim_append_blanks {t : List Char} (ht : ∀ c ∈ t, isBlank c = true) (s : List Char) :
    trim (s ++ t) = trim s := by
  rw [trim, dropEnds, List.dropWhile_append]
  split
  case isTrue hempty =>
    rw [List.dropWhile_eq_nil_iff.mpr ht, trim, dropEnds, List.isEmpty_iff.mp hempty]
  case isFalse => exact dropEnd_append ht _

theorem trim_blanks_append {t : List Char} (ht : ∀ c ∈ t, isBlank c = true) (s : List Char) :
    trim (t ++ s) = trim s := by
  rw [trim, dropEnds, List.dropWhile_append_of_pos ht]
  rfl

theorem isBlank_of_mem_singleton {d : Char} (hd : isBlank d = true) : ∀ c ∈ [d], isBlank c = true :=
  List.forall_mem_singleton.mpr hd

theorem isBlank_line {blanks : List Char} (h : ∀ c ∈ blanks, isBlank c = true) :
    ∀ c ∈ blanks ++ ['\n'], isBlank c = true := by
  rw [List.forall_mem_append]
  exact ⟨h, isBlank_of_mem_singleton (by decide)⟩

/-- What is read behind a tag is the query, perhaps without some of the blanks in front of it. -/
theorem blockContent_query {blanks query : List Char} (hblanks : ∀ c ∈ blanks, isBlank c = true)
    (hfree : ¬fence <:+: query) :
    ∃ body, blockContent (blanks ++ '\n' :: (query ++ '\n' :: (fence ++ x))) = some (body, x) ∧
      trim body = trim query := by
  let whole := blanks ++ ['\n'] ++ query ++ ['\n']
  have htext : blanks ++ '\n' :: (query ++ '\n' :: (fence ++ x)) = whole ++ (fence ++ x) := by simp [whole]
  obtain ⟨lead, rest, hafter, hsplit, hlead⟩ :=
    afterLastNewline_eq_some (newline_mem_takeWhile hblanks (query ++ '\n' :: (fence ++ x)))
  have hcut := isBlank_line hlead
  rw [htext, List.append_cons] at hsplit
  -- The blanks that are cut off end before the closing fence.
  obtain ⟨body, hwhole⟩ : lead ++ ['\n'] <+: whole :=
    prefix_of_append_fence (fun c hc => ne_tick_of_isBlank (hcut c hc)) hsplit.symm
  have hrest : rest = body ++ (fence ++ x) := by
    apply List.append_cancel_left
    rw [← hsplit, ← hwhole, List.append_assoc]
  have hbody : ¬fence <:+: body := by
    have hsuffix : body <:+ whole := ⟨_, hwhole⟩
    intro h
    have hwithin : fence <:+: blanks ++ ['\n'] ++ query :=
      fence_infix_of_back (c := '\n') (by decide) (h.trans hsuffix.isInfix)
    exact hfree (fence_infix_of_front (fun c hc => ne_tick_of_isBlank (isBlank_line hblanks c hc)) hwithin)
  have hends : ∀ c ∈ body.getLast?, c ≠ tick := by
    intro c hc
    have hlast : whole.getLast? = some c := by rw [← hwhole, List.getLast?_append, hc, Option.some_or]
    rw [List.getLast?_concat] at hlast
    obtain rfl := Option.some.inj hlast
    decide
  refine ⟨body, ?_, ?_⟩
  · rw [blockContent, hafter, hrest]
    exact cutAtFirst_fence hbody hends
  · calc trim body
      _ = trim (lead ++ ['\n'] ++ body) := (trim_blanks_append hcut body).symm
      _ = trim (blanks ++ ['\n'] ++ query ++ ['\n']) := by rw [hwhole]
      _ = trim (blanks ++ ['\n'] ++ query) := trim_append_blanks (isBlank_of_mem_singleton (by decide)) _
      _ = trim query := trim_blanks_append (isBlank_line hblanks) query

end Blocks

/-- The query of a reply is what its first block with a tag of the query language holds: without the blanks
around it, then without the semicolons at its end, then without blanks again. It does not matter what stands
before the block, so long as no such block is opened there, nor what follows its end. -/
theorem queryIn_block {prose tag blanks query : List Char} (hprose : ∀ s, s <:+ prose → ¬OpensQuery s)
    (htag : IsQueryTag tag) (hblanks : ∀ c ∈ blanks, isBlank c = true) (hquery : ¬fence <:+: query)
    (trailing : List Char) :
    queryIn (.ofList (prose ++ fence ++ tag ++ blanks ++ ['\n'] ++ query ++ ['\n'] ++ fence ++ trailing)) =
      some (.ofList (trim (dropEnd (· == ';') (trim query)))) := by
  obtain ⟨body, hcontent, hbody⟩ := blockContent_query (x := trailing) hblanks hquery
  let reply := prose ++ (fence ++ (tag ++ (blanks ++ '\n' :: (query ++ '\n' :: (fence ++ trailing)))))
  have htext : prose ++ fence ++ tag ++ blanks ++ ['\n'] ++ query ++ ['\n'] ++ fence ++ trailing = reply := by
    simp [reply]
  have hsome : ¬reply.isEmpty = true := by simp [reply]
  have hfirst : firstTaggedBlock reply = some body := by
    rw [firstTaggedBlock_append hprose]
    exact firstTaggedBlock_of_some (taggedBlock_of_tag htag hcontent)
  rw [htext]
  simp only [queryIn, String.toList_ofList, if_neg hsome, hfirst, Option.orElse_some, Option.map_some,
    bareStatement, hbody]

/-- Blocks of other languages, a lone back tick and a query without a block are no hindrance. -/
theorem queryIn_block_among_others :
    let prose := "Not ```json\n[]\n``` or ``SELECT Name FROM Contact``, nor ```sqlite\nSELECT 1\n```:\n\n``".toList
    let query := "\n\nSELECT Id\n\nFROM Account ;; ".toList
    let trailing := "`\n```soql\nSELECT Name FROM Lead\n```".toList
    ((∀ s, s <:+ prose → ¬OpensQuery s) ∧ IsQueryTag "SoQL".toList ∧ (∀ c ∈ [' '], isBlank c = true) ∧
      ¬fence <:+: query) ∧
    queryIn (.ofList (prose ++ fence ++ "SoQL".toList ++ [' '] ++ ['\n'] ++ query ++ ['\n'] ++ fence ++ trailing)) =
      some "SELECT Id\n\nFROM Account" := by
  intro prose query trailing
  have hprose : ∀ s, s <:+ prose → ¬OpensQuery s := by
    have htails : ∀ s ∈ prose.tails, ¬OpensQuery s := by decide +kernel
    exact fun s hs => htails s ((List.mem_tails _ _).mpr hs)
  have htag : IsQueryTag "SoQL".toList := ⟨"soql", by decide, by decide⟩
  have hblanks : ∀ c ∈ [' '], isBlank c = true := isBlank_of_mem_singleton (by decide)
  have hquery : ¬fence <:+: query := by decide
  refine ⟨⟨hprose, htag, hblanks, hquery⟩, ?_⟩
  rw [queryIn_block hprose htag hblanks hquery trailing]
  decide +kernel

end Soql.Text
