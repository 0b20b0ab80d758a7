import Soql.Proofs.Query.Arguments
import Soql.Proofs.Query.Paths

namespace Soql.Token

open Text

/-- A literal without a backslash ends at the next quote. -/
theorem literalBody_free {quote : Char} (hquote : quote ≠ '\\') {s : List Char}
    (h : ∀ c ∈ s, c ≠ quote ∧ c ≠ '\\') (x : List Char) :
    literalBody quote (s ++ quote :: x) = some (s, x) := by
  induction s with
  | nil => simp [literalBody, hquote]
  | cons c s ih =>
    have hc := h c (by simp)
    have hrest := ih fun d hd => h d (by simp [hd])
    simp [literalBody, hc.1, hc.2, hrest]

theorem quote_not_mem_body {quote : Char} {s body after : List Char}
    (h : literalBody quote s = some (body, after)) (hs : '\\' ∉ s) : quote ∉ body := by
  fun_induction literalBody quote s generalizing body after with
  | case1 => cases h
  | case2 => simp at hs
  | case3 =>
    cases h
    exact List.not_mem_nil
  | case4 => cases h
  | case5 c rest hshape hc hb ih =>
    obtain ⟨⟨body', after'⟩, hrest, heq⟩ := Option.map_eq_some_iff.mp h
    cases heq
    have hfree := ih hrest fun hmem => hs (List.mem_cons_of_mem c hmem)
    rw [List.mem_cons, not_or]
    exact ⟨fun heq => hc (by simp [heq]), hfree⟩
  | case6 => cases h

theorem start_literal {c : Char} {rest : List Char} {n : Nat}
    (h : start c rest = some (some .literal, n)) :
    c = '\x27' ∧ ∃ body after, literalBody c rest = some (body, after) ∧ n = body.length + 1 := by
  cases start_iff.mp h with
  | @literal body after hc hbody => exact ⟨hc, body, after, hbody, rfl⟩

/-- A literal is a body in quotes. -/
theorem Whole.body {text : String} (h : Whole ⟨.literal, text⟩) :
    ∃ body, text.toList = '\x27' :: (body ++ ['\x27']) ∧
      literalBody '\x27' (body ++ ['\x27']) = some (body, []) := by
  obtain ⟨c, rest, htext, hs⟩ := h
  obtain ⟨rfl, body, after, hbody, hlength⟩ := start_literal hs
  have hsplit := literalBody_append hbody
  have hafter : after = [] := by
    rw [← hsplit, List.length_append, List.length_cons] at hlength
    exact List.length_eq_zero_iff.mp (by omega)
  rw [hafter] at hsplit hbody
  have hlist : text.toList = '\x27' :: rest := by
    have heq := congrArg String.toList htext
    simpa using heq
  exact ⟨body, by rw [hlist, hsplit], by rw [hsplit, hbody]⟩

theorem whole_of_body {text : String} {body : List Char}
    (htext : text.toList = '\x27' :: (body ++ ['\x27']))
    (hbody : literalBody '\x27' (body ++ ['\x27']) = some (body, [])) : Whole ⟨.literal, text⟩ := by
  refine ⟨'\x27', body ++ ['\x27'], ?_, ?_⟩
  · rw [← htext, String.ofList_toList]
  · rw [List.length_append, List.length_singleton]
    exact start_iff.mpr (.literal rfl hbody)

/-- A token that stays of its kind when a path in it is exchanged: a name without a count, a literal
without a backslash, or a token without a letter. -/
def isPlain (t : Token) : Bool :=
  match t.kind with
  | .name => !t.text.toList.contains ':'
  | .literal => !t.text.toList.contains '\\'
  | .date | .number | .bind | .operator | .mark => t.text.toList.all quiet

def renamed (old new : String) (t : Token) : Token :=
  { t with text := renamePath old new t.text }

section

variable {old new : String} (h : Renames old new)

include h

theorem renamed_quiet {t : Token} (hquiet : t.text.toList.all quiet = true) :
    t.renamed old new = t := by
  rw [Token.renamed, renamePath_quiet (pathText_of_isPath h.source) hquiet]

theorem renamed_name {text : String} (ht : Whole (word text)) (hcolon : ':' ∉ text.toList) :
    Whole (word (renamePath old new text)) ∧ ':' ∉ (renamePath old new text).toList := by
  have hrenamed := h.path (isPath_of_whole ht hcolon)
  refine ⟨whole_of_isPath hrenamed, ?_⟩
  intro hmem
  exact absurd ((pathText_of_isPath hrenamed).chars ':' hmem) (by decide)

/-- The exchange acts inside the quotes, and brings neither a quote nor a backslash. -/
theorem renamed_literal {text : String} (ht : Whole ⟨.literal, text⟩) (hfree : '\\' ∉ text.toList) :
    Whole ⟨.literal, renamePath old new text⟩ ∧ '\\' ∉ (renamePath old new text).toList := by
  have hold := pathText_of_isPath h.source
  obtain ⟨body, htext, hbody⟩ := ht.body
  have htext' : text = "'" ++ (.ofList body ++ "'" ++ "") := by
    apply String.toList_injective
    simp [htext]
  have hrenamed : (renamePath old new text).toList =
      '\x27' :: ((renamePath old new (.ofList body)).toList ++ ['\x27']) := by
    rw [htext', renamePath_front hold (by decide) (by decide),
      renamePath_append hold (by decide) (by decide), renamePath_empty hold]
    simp
  rw [htext] at hfree
  have hquote := quote_not_mem_body hbody (fun hmem => hfree (List.mem_cons_of_mem _ hmem))
  -- Neither the body nor a path has a quote or a backslash, and nothing else is written.
  have hchars : ∀ c ∈ (renamePath old new (.ofList body)).toList, c ≠ '\x27' ∧ c ≠ '\\' := by
    intro c hc
    rw [toList_renamePath (pathText_of_isPath h.target).plain, String.toList_ofList] at hc
    rcases mem_renameFrom hc with hc | hc
    · refine ⟨fun heq => hquote (heq ▸ hc), ?_⟩
      rintro rfl
      exact hfree (by simp [hc])
    · have hchar := (pathText_of_isPath h.target).chars c hc
      refine ⟨?_, ?_⟩ <;>
      · rintro rfl
        exact absurd hchar (by decide)
  refine ⟨whole_of_body hrenamed (literalBody_free (by decide) hchars []), ?_⟩
  rw [hrenamed]
  intro hmem
  simp only [List.mem_cons, List.mem_append, List.not_mem_nil, or_false] at hmem
  rcases hmem with hmem | hmem | hmem
  · exact absurd hmem (by decide)
  · exact (hchars _ hmem).2 rfl
  · exact absurd hmem (by decide)

/-- A plain token is a plain token of its kind when a path in it is exchanged. -/
theorem renamed_plain {t : Token} (ht : t.Whole) (hplain : t.isPlain = true) :
    (t.renamed old new).Whole ∧ (t.renamed old new).isPlain = true := by
  obtain ⟨kind, text⟩ := t
  have hquiet (hall : text.toList.all quiet = true) : (Token.renamed old new ⟨kind, text⟩).Whole ∧
      (Token.renamed old new ⟨kind, text⟩).isPlain = true := by
    rw [renamed_quiet h hall]
    exact ⟨ht, hplain⟩
  cases kind with
  | name =>
    obtain ⟨hwhole, hcolon⟩ := renamed_name h ht (by simpa [isPlain] using hplain)
    exact ⟨hwhole, by simpa [isPlain, Token.renamed] using hcolon⟩
  | literal =>
    obtain ⟨hwhole, hfree⟩ := renamed_literal h ht (by simpa [isPlain] using hplain)
    exact ⟨hwhole, by simpa [isPlain, Token.renamed] using hfree⟩
  | date | number | bind | operator | mark => exact hquiet (by simpa [isPlain] using hplain)

theorem renamed_text_iff {t : Token} (ht : t.Whole) (hplain : t.isPlain = true) {c : Char}
    (hc : c = ')' ∨ c = ',' ∨ c = '(') :
    (t.renamed old new).text = .ofList [c] ↔ t.text = .ofList [c] := by
  constructor
  · intro htext
    have hmark := (renamed_plain h ht hplain).1.eq_mark hc htext
    have hkind : t.kind = .mark := congrArg Token.kind hmark
    have hquiet : t.text.toList.all quiet = true := by rwa [isPlain, hkind] at hplain
    rwa [renamed_quiet h hquiet] at htext
  · intro htext
    have hquiet : t.text.toList.all quiet = true := by
      rw [htext, String.toList_ofList]
      rcases hc with rfl | rfl | rfl <;> decide
    rw [renamed_quiet h hquiet, htext]

theorem isMark_renamed {t : Token} (ht : t.Whole) (hplain : t.isPlain = true) {c : Char}
    (hc : c = ')' ∨ c = ',' ∨ c = '(') :
    (t.renamed old new).isMark (.ofList [c]) = t.isMark (.ofList [c]) := by
  rw [isMark, isMark, Bool.eq_iff_iff]
  simp only [Bool.and_eq_true, beq_iff_eq, renamed_text_iff h ht hplain hc]
  rfl

theorem joinsTo_renamed {previous t : Token} (hp : previous.Whole) (hp' : previous.isPlain = true)
    (ht : t.Whole) (ht' : t.isPlain = true) :
    joinsTo (previous.renamed old new) (t.renamed old new) = joinsTo previous t := by
  have hclose := renamed_text_iff h ht ht' (c := ')') (by decide)
  have hcomma := renamed_text_iff h ht ht' (c := ',') (by decide)
  have hopen := renamed_text_iff h ht ht' (c := '(') (by decide)
  have hbefore := renamed_text_iff h hp hp' (c := '(') (by decide)
  rw [joinsTo, joinsTo, Bool.eq_iff_iff]
  simp only [Bool.or_eq_true, Bool.and_eq_true, beq_iff_eq]
  exact or_congr (or_congr (or_congr hclose hcomma) hbefore) (and_congr hopen Iff.rfl)

/-- Before a mark the exchange acts on the text in front by itself. -/
theorem renamePath_mark {sep : String} (hne : sep ≠ "") (hsep : sep.toList.all parts = true)
    (s x : String) : renamePath old new (s ++ (sep ++ x)) =
      renamePath old new s ++ renamePath old new (sep ++ x) := by
  have hold := pathText_of_isPath h.source
  rw [← String.append_assoc, renamePath_append hold hne hsep, renamePath_front hold hne hsep,
    String.append_assoc]

/-- The exchange acts on each token of a row by itself. -/
theorem renamePath_textAfter {previous : Token} (hp : previous.Whole) (hp' : previous.isPlain = true)
    {ts : List Token} (hts : ∀ t ∈ ts, t.Whole ∧ t.isPlain = true) :
    renamePath old new (previous.text ++ textAfter previous ts) =
      (previous.renamed old new).text ++
        textAfter (previous.renamed old new) (ts.map (Token.renamed old new)) := by
  have hold := pathText_of_isPath h.source
  induction ts generalizing previous with
  | nil =>
    rw [textAfter, List.map_nil, textAfter, String.append_empty, String.append_empty]
    rfl
  | cons t ts ih =>
    obtain ⟨⟨ht, ht'⟩, hts⟩ := List.forall_mem_cons.mp hts
    have hrest := ih ht ht' hts
    rw [List.map_cons, textAfter, textAfter, joinsTo_renamed h hp hp' ht ht']
    by_cases hjoin : joinsTo previous t = true
    · rw [if_pos hjoin, if_pos hjoin, ← hrest]
      simp only [joinsTo, Bool.or_eq_true, Bool.and_eq_true, beq_iff_eq] at hjoin
      -- One of the two tokens is a mark, which the exchange does not go across.
      rcases hjoin with ((hmark | hmark) | hmark) | ⟨hmark, -⟩
      · rw [hmark, renamePath_mark h (by decide) (by decide)]
        rfl
      · rw [hmark, renamePath_mark h (by decide) (by decide)]
        rfl
      · have hsame : previous.renamed old new = previous :=
          renamed_quiet h (by rw [hmark]; decide)
        rw [hsame, hmark, renamePath_front hold (by decide) (by decide)]
      · rw [hmark, renamePath_mark h (by decide) (by decide)]
        rfl
    · rw [if_neg hjoin, if_neg hjoin, String.append_assoc, ← String.append_assoc,
        renamePath_append hold (by decide) (by decide), hrest, String.append_assoc, String.append_assoc]
      rfl

theorem renamePath_rowText {ts : List Token} (hts : ∀ t ∈ ts, t.Whole ∧ t.isPlain = true) :
    renamePath old new (rowText ts) = rowText (ts.map (Token.renamed old new)) := by
  cases ts with
  | nil => exact renamePath_empty (pathText_of_isPath h.source)
  | cons t ts =>
    obtain ⟨⟨ht, ht'⟩, hts⟩ := List.forall_mem_cons.mp hts
    exact renamePath_textAfter h ht ht' hts

end

end Soql.Token

namespace Soql.Query

open Text Token

def PlainRow (row : List Token) : Prop :=
  walk endsPart 0 row = some 0 ∧ ∀ t ∈ row, t.Whole ∧ t.isPlain = true

def PlainArguments (args : List String) : Prop :=
  ∃ rows : List (List Token), args = rows.map rowText ∧ ∀ row ∈ rows, PlainRow row

theorem PlainArguments.arguments {args : List String} (h : PlainArguments args) : IsArguments args := by
  obtain ⟨rows, rfl, hrows⟩ := h
  exact ⟨rows, rfl, fun row hrow => ⟨(hrows row hrow).1, fun t ht => ((hrows row hrow).2 t ht).1⟩⟩

def isPlainText (s : String) : Bool :=
  (Token.ofText s).toOption.any (·.all Token.isPlain)

theorem ofText_rowText {row : List Token} (h : AllWhole row) : Token.ofText (rowText row) = .ok row :=
  (writes_rowText h).lexes 0

theorem plainArguments_of_all {args : List String} (h : IsArguments args)
    (hplain : args.all isPlainText = true) : PlainArguments args := by
  obtain ⟨rows, rfl, hrows⟩ := h
  refine ⟨rows, rfl, ?_⟩
  intro row hrow
  obtain ⟨hwalk, hwhole⟩ := hrows row hrow
  have hrow' : isPlainText (rowText row) = true :=
    List.all_eq_true.mp hplain _ (List.mem_map.mpr ⟨row, hrow, rfl⟩)
  rw [isPlainText, ofText_rowText hwhole] at hrow'
  have hall : row.all Token.isPlain = true := hrow'
  exact ⟨hwalk, fun t ht => ⟨hwhole t ht, List.all_eq_true.mp hall t ht⟩⟩

/-- An expression that is a path, or a call with plain arguments of which the last is not empty. -/
inductive Orderly : String → Prop
  | name {w : String} (hname : isProper w = true) : Orderly w
  | call {name : String} {args : List String} (hname : isProper name = true)
    (hargs : PlainArguments args) (hlast : args.getLast? ≠ some "") : Orderly (callText name args)

theorem isPath_of_isProper {w : String} (h : isProper w = true) : isPath w = true := by
  rw [isProper, Bool.and_eq_true] at h
  exact h.1

theorem Orderly.expression {e : String} (h : Orderly e) :
    ∃ name, isProper name = true ∧ Expression name e := by
  cases h with
  | name hname => exact ⟨_, hname, Expression.of_name (whole_of_isPath (isPath_of_isProper hname))⟩
  | call hname hargs hlast =>
    exact ⟨_, hname, Expression.of_call (whole_of_isPath (isPath_of_isProper hname)) hargs.arguments hlast⟩

section

variable {old new : String} (h : Renames old new)

include h

/-- Marks stay marks and nothing else becomes one, so that the depth of parentheses stays. -/
theorem walk_renamed {ts : List Token} (hts : ∀ t ∈ ts, t.Whole ∧ t.isPlain = true) (depth : Nat) :
    walk endsPart depth (ts.map (Token.renamed old new)) = walk endsPart depth ts := by
  induction ts generalizing depth with
  | nil => rfl
  | cons t ts ih =>
    obtain ⟨⟨ht, hplain⟩, hts⟩ := List.forall_mem_cons.mp hts
    have hmark {c : Char} (hc : c = ')' ∨ c = ',' ∨ c = '(') :
        (t.renamed old new).isMark (.ofList [c]) = t.isMark (.ofList [c]) := isMark_renamed h ht hplain hc
    have hends : endsPart (t.renamed old new) = endsPart t :=
      congrArg₂ or (hmark (c := ')') (by decide)) (hmark (c := ',') (by decide))
    have hdepth : depthPast depth (t.renamed old new) = depthPast depth t := by
      have hopen : (t.renamed old new).isMark "(" = t.isMark "(" := hmark (c := '(') (by decide)
      have hclose : (t.renamed old new).isMark ")" = t.isMark ")" := hmark (c := ')') (by decide)
      rw [depthPast, depthPast, hopen, hclose]
    rw [List.map_cons, walk, walk, hends, hdepth, ih hts]

theorem PlainRow.renamed {row : List Token} (hrow : PlainRow row) :
    PlainRow (row.map (Token.renamed old new)) := by
  obtain ⟨hwalk, htokens⟩ := hrow
  refine ⟨by rw [walk_renamed h htokens, hwalk], ?_⟩
  intro t ht
  obtain ⟨before, hbefore, rfl⟩ := List.mem_map.mp ht
  obtain ⟨hwhole, hplain⟩ := htokens before hbefore
  exact renamed_plain h hwhole hplain

theorem PlainArguments.renamed {args : List String} (hargs : PlainArguments args) :
    PlainArguments (args.map (renamePath old new)) := by
  obtain ⟨rows, rfl, hrows⟩ := hargs
  refine ⟨rows.map (·.map (Token.renamed old new)), ?_, ?_⟩
  · rw [List.map_map, List.map_map]
    apply List.map_congr_left
    intro row hrow
    exact renamePath_rowText h (hrows row hrow).2
  · intro row hrow
    obtain ⟨before, hbefore, rfl⟩ := List.mem_map.mp hrow
    exact (hrows before hbefore).renamed h

theorem renamePath_callText (name : String) (args : List String) :
    renamePath old new (callText name args) =
      callText (renamePath old new name) (args.map (renamePath old new)) := by
  have hold := pathText_of_isPath h.source
  have hcall (n : String) (inside : String) : n ++ "(" ++ inside ++ ")" = n ++ "(" ++ (inside ++ ")" ++ "") := by
    simp [String.append_assoc]
  rw [callText, hcall, renamePath_append hold (by decide) (by decide),
    renamePath_append hold (by decide) (by decide), renamePath_empty hold,
    renamePath_joined hold (by decide) (by decide), ← hcall, callText]

theorem getLast?_renamed {args : List String} (hlast : args.getLast? ≠ some "") :
    (args.map (renamePath old new)).getLast? ≠ some "" := by
  rw [List.getLast?_map]
  intro hsome
  obtain ⟨last, hargs, hempty⟩ := Option.map_eq_some_iff.mp hsome
  have hne : last ≠ "" := fun heq => hlast (heq ▸ hargs)
  exact renamePath_ne_empty (pathText_of_isPath h.source) (pathText_of_isPath h.target).plain hne
    (ne_empty_of_isPath h.target) hempty

/-- An orderly expression is one when a path in it is exchanged. -/
theorem Orderly.renamed {e : String} (he : Orderly e) : Orderly (renamePath old new e) := by
  cases he with
  | name hname => exact .name (h.proper hname)
  | call hname hargs hlast =>
    rw [renamePath_callText h]
    exact .call (h.proper hname) (hargs.renamed h) (getLast?_renamed h hlast)

end

def isOrderly (e : String) : Bool :=
  (Token.ofText e).toOption.any fun ts =>
    ts.head?.any (fun t => isProper t.text) && ts.tail.all Token.isPlain && !endsEmpty e &&
      (readExpression.run ts).toOption.any fun (read, rest) => read == e && rest.isEmpty

theorem orderly_of_isOrderly {e : String} (h : isOrderly e = true) : Orderly e := by
  unfold isOrderly at h
  obtain ⟨ts, hts, h⟩ := exists_ok_of_any h
  simp only [Bool.and_eq_true, Bool.not_eq_true'] at h
  obtain ⟨⟨⟨hname, hplain⟩, hend⟩, hread⟩ := h
  obtain ⟨⟨read, rest⟩, hrun, heq⟩ := exists_ok_of_any hread
  rw [Bool.and_eq_true, beq_iff_eq, List.isEmpty_iff] at heq
  obtain ⟨rfl, rfl⟩ := heq
  -- The check reads the expression once, and that reading is taken apart here.
  unfold readExpression at hrun
  simp only [run_bind_ok, run_takeName_ok, run_atMark_ok] at hrun
  obtain ⟨name, after, rfl, open?, _, ⟨-, rfl⟩, hrun⟩ := hrun
  have hname : isProper name = true := by simpa using hname
  by_cases ho : open? = true
  · rw [if_pos ho] at hrun
    simp only [run_bind_ok, run_pure_ok] at hrun
    obtain ⟨args, _, hargs, rfl, rfl⟩ := hrun
    have hafter : ∀ t ∈ after, t.Whole ∧ t.isPlain = true := by
      intro t ht
      exact ⟨whole_of_scan hts t (List.mem_cons_of_mem _ ht), List.all_eq_true.mp hplain t ht⟩
    obtain ⟨hplainArgs, -⟩ := readArguments_rows hargs hafter
    change Orderly (callText name args)
    by_cases hone : args = [""]
    · -- A single empty argument is written as no argument at all.
      have htext : callText name args = callText name [] := by simp [hone, callText, joined]
      rw [htext]
      exact .call hname ⟨[], rfl, by simp⟩ (by simp)
    · refine .call hname hplainArgs ?_
      intro hlast
      have hbad : endsEmpty (callText name args) = true :=
        (PlainArguments.arguments hplainArgs).endsEmpty_iff.mpr ⟨hlast, hone⟩
      rw [callText] at hbad
      rw [hbad] at hend
      cases hend
  · rw [if_neg ho, run_pure_ok] at hrun
    obtain ⟨rfl, -⟩ := hrun
    exact .name hname

end Soql.Query
