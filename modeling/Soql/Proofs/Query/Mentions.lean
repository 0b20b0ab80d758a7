import Soql.Proofs.Query.Plain

namespace Soql.Text

open Token

def opensCall (after : List Char) : Bool :=
  (after.dropWhile isBlank).head? == some '('

theorem dotted_of_not_identFirst {c : Char} (hc : isIdentFirst c = false) (s : List Char) :
    dotted (c :: s) = none := by
  simp [dotted, hc]

theorem dottedPaths_cons {c : Char} (hc : isIdentFirst c = false) (s : List Char) :
    dottedPaths (c :: s) = dottedPaths s := by
  rw [dottedPaths]
  split
  · rename_i hfound
    rw [dotted_of_not_identFirst hc] at hfound
    cases hfound
  · rfl

theorem identFirst_of_blank {c : Char} (hc : isBlank c = true) : isIdentFirst c = false := by
  rw [← Bool.not_eq_true]
  intro hfirst
  have hsolid := solid_of_identRest (identRest_of_identFirst hfirst)
  simp [solid, hc] at hsolid

theorem dottedPaths_dropWhile (s : List Char) : dottedPaths (s.dropWhile isBlank) = dottedPaths s := by
  induction s with
  | nil => rfl
  | cons c s ih =>
    by_cases hc : isBlank c = true
    · rw [List.dropWhile_cons_of_pos hc, ih, dottedPaths_cons (identFirst_of_blank hc)]
    · rw [List.dropWhile_cons_of_neg hc]

/-- A path in front of a text is one of its paths, unless it is the name of a call; the others are those
of what follows. -/
theorem dottedPaths_of_dotted {s path after : List Char} (h : dotted s = some (path, after)) :
    dottedPaths s = (if opensCall after then [] else [path]) ++ dottedPaths after := by
  cases s with
  | nil => cases h
  | cons c s =>
    rw [dottedPaths]
    split
    case h_1 path' after' hfound =>
      obtain ⟨rfl, rfl⟩ : path' = path ∧ after' = after := by simpa using hfound.symm.trans h
      split
      case h_1 inside hbracket =>
        have hcalled : opensCall after' = true := by simp [opensCall, hbracket]
        have hinside : dottedPaths after' = dottedPaths inside := by
          rw [← dottedPaths_dropWhile, hbracket, dottedPaths_cons (by decide)]
        rw [hcalled, hinside]
        rfl
      case h_2 hnone =>
        have hclosed : opensCall after' = false := by
          rw [opensCall, beq_eq_false_iff_ne]
          intro hhead
          obtain ⟨inside, hinside⟩ := List.head?_eq_some_iff.mp hhead
          exact hnone inside hinside
        rw [hclosed]
        rfl
    case h_2 hnone =>
      rw [hnone] at h
      cases h

theorem identFirst_of_apart {c : Char} (hc : separates c = true) : isIdentFirst c = false := by
  rcases eq_of_separates hc with rfl | rfl | rfl | rfl <;> decide

/-- No path goes on into a text that is apart. -/
theorem dottedRest_append_apart (s : List Char) {x : List Char} (hx : Apart x) :
    dottedRest (s ++ x) = ((dottedRest s).1, (dottedRest s).2 ++ x) := by
  fun_induction dottedRest s with
  | case1 c rest hc _ more after found ih =>
    rw [found] at ih
    obtain ⟨htake, hdrop⟩ := takeWhile_append_head rest hx.not_ident
    rw [List.cons_append, List.cons_append, dottedRest]
    simp only [hc, if_true, htake, hdrop, ih]
  | case2 c rest hc => simp [dottedRest, hc]
  | case3 s hother =>
    cases s with
    | nil => exact dottedRest_eq_nil (hx.ne (by decide))
    | cons c s =>
      by_cases hc : c = '.'
      · cases s with
        | cons d s => exact absurd (congrArg (· :: d :: s) hc) (hother d s)
        | nil =>
          -- A point at the end joins nothing that is apart.
          cases x with
          | nil => simp [dottedRest]
          | cons d x => simp [hc, dottedRest, identFirst_of_apart (hx d rfl)]
      · exact dottedRest_eq_nil (by simpa using hc)

theorem dotted_append_apart {s path after x : List Char} (h : dotted s = some (path, after)) (hx : Apart x) :
    dotted (s ++ x) = some (path, after ++ x) := by
  cases s with
  | nil => cases h
  | cons c rest =>
    simp only [dotted] at h
    split at h
    · rename_i hc
      cases h
      obtain ⟨htake, hdrop⟩ := takeWhile_append_head rest hx.not_ident
      simp only [List.cons_append, dotted, hc, if_true, htake, hdrop, dottedRest_append_apart _ hx]
    · cases h

/-- The paths of a text that is apart are found after anything, by induction on the length of what stands
in front. -/
theorem mem_dottedPaths_append {path x : List Char} (h : path ∈ dottedPaths x) (hx : Apart x) (s : List Char) :
    path ∈ dottedPaths (s ++ x) := by
  induction hn : s.length using Nat.strong_induction_on generalizing s with
  | _ n ih =>
    cases s with
    | nil => exact h
    | cons c rest =>
      cases hfound : dotted (c :: rest) with
      | some found =>
        obtain ⟨front, after⟩ := found
        -- A path in front ends with it, so that the search goes on in what is left of it.
        have hshort := length_dotted_lt hfound
        rw [dottedPaths_of_dotted (dotted_append_apart hfound hx)]
        exact List.mem_append_right _ (ih after.length (hn ▸ hshort) after rfl)
      | none =>
        have hc : isIdentFirst c = false := by
          rw [← Bool.not_eq_true]
          intro hc
          simp [dotted, hc] at hfound
        rw [List.cons_append, dottedPaths_cons hc]
        exact ih rest.length (by simp [← hn]) rest rfl

end Soql.Text

namespace Soql.Token

open Text

theorem withoutLiterals_append {s : List Char} (h : ∀ c ∈ s, c ≠ '\x27' ∧ c ≠ '\x22') (x : List Char) :
    withoutLiterals (s ++ x) = s ++ withoutLiterals x := by
  induction s with
  | nil => rfl
  | cons c s ih =>
    obtain ⟨hc, hs⟩ := List.forall_mem_cons.mp h
    rw [List.cons_append, withoutLiterals, if_neg (by simp [hc.1, hc.2]), ih hs]
    rfl

theorem covers_unquoted : Covers fun c => c ≠ '\x27' ∧ c ≠ '\x22' where
  decimal := by
    intro c hc
    constructor <;> rintro rfl <;> exact absurd hc (by decide)
  ident := by
    intro c hc
    constructor <;> rintro rfl <;> exact absurd hc (by decide)
  marks := by simp

/-- A literal stands in quotes. -/
theorem Whole.not_literal {t : Token} (ht : t.Whole) (hfree : '\x27' ∉ t.text.toList) : t.kind ≠ .literal := by
  obtain ⟨kind, text⟩ := t
  rintro rfl
  obtain ⟨body, htext, -⟩ := ht.body
  rw [htext] at hfree
  exact hfree List.mem_cons_self

/-- What dates, numbers, variables and names are written with, and operators too, is all that there is in a
token that is no literal and no mark. -/
theorem Whole.chars {p : Char → Prop} (hp : Covers p) (hoperator : ∀ c ∈ ['<', '>', '=', '!'], p c) {t : Token}
    (ht : t.Whole) (hliteral : t.kind ≠ .literal) (hmark : t.kind ≠ .mark) : ∀ c ∈ t.text.toList, p c := by
  obtain ⟨kind, text⟩ := t
  obtain ⟨c, body, rfl, hs⟩ := ht
  have hcovered (h : kind = .date ∨ kind = .number ∨ kind = .bind ∨ kind = .name) : ∀ d ∈ c :: body, p d := by
    have hall := hp.start hs h
    rwa [List.take_length] at hall
  rw [String.toList_ofList]
  generalize hn : body.length = n at hs
  cases start_iff.mp hs with
  | literal => exact absurd rfl hliteral
  | negative hc hm => exact hcovered (by simp)
  | date hbare hc hm => exact hcovered (by simp)
  | number hbare hc hdate hm => exact hcovered (by simp)
  | bind hc hrest he => exact hcovered (by simp)
  | name hbare hdigit hcolon hc hm => exact hcovered (by simp)
  -- Literals and marks apart, only operators are made of other characters.
  | @long d others hrest hc =>
    obtain rfl : others = [] := by simpa [hrest] using hn
    have hd : d = '=' ∨ d = '>' := (eq_of_isLongOperator hc).2
    have hfirst : c = '<' ∨ c = '>' ∨ c = '!' := (eq_of_isLongOperator hc).1
    rw [hrest]
    intro e he
    apply hoperator
    rcases List.mem_cons.mp he with rfl | he
    · rcases hfirst with rfl | rfl | rfl <;> decide
    · rw [List.mem_singleton.mp he]
      rcases hd with rfl | rfl <;> decide
  | operator hc hlong =>
    obtain rfl := List.length_eq_zero_iff.mp hn
    intro e he
    apply hoperator
    rw [List.mem_singleton.mp he]
    rcases hc with rfl | rfl | rfl <;> decide
  | mark hc => exact absurd rfl hmark

/-- In a text of tokens without literals there are only these characters, marks and spaces. -/
theorem Laid.chars {p : Char → Prop} (hp : Covers p) (hothers : ∀ c ∈ ['<', '>', '=', '!', ')', ',', '(', ' '], p c)
    {s : List Char} {ts : List Token} (h : Laid s ts) (hfree : '\x27' ∉ s) : ∀ c ∈ s, p c := by
  induction h with
  | nil => simp
  | space _ ih =>
    rw [List.forall_mem_cons]
    exact ⟨hothers ' ' (by simp), ih fun hmem => hfree (List.mem_cons_of_mem _ hmem)⟩
  | @token t s ts ht _ _ ih =>
    rw [List.mem_append, not_or] at hfree
    obtain ⟨htoken, hrest⟩ := hfree
    rw [List.forall_mem_append]
    refine ⟨?_, ih hrest⟩
    by_cases hmark : t.kind = .mark
    · obtain ⟨c, hc, rfl⟩ := ht.exists_mark hmark
      rw [String.toList_ofList]
      intro d hd
      rw [List.mem_singleton.mp hd]
      rcases hc with rfl | rfl | rfl <;> exact hothers _ (by simp)
    · exact ht.chars hp (fun c hc => hothers c (by simp at hc ⊢; tauto)) (ht.not_literal htoken) hmark

/-- Only a literal is written with quotes. -/
theorem Whole.unquoted {t : Token} (ht : t.Whole) (hkind : t.kind ≠ .literal) :
    ∀ c ∈ t.text.toList, c ≠ '\x27' ∧ c ≠ '\x22' := by
  by_cases hmark : t.kind = .mark
  · obtain ⟨c, hc, rfl⟩ := ht.exists_mark hmark
    rw [String.toList_ofList]
    rcases hc with rfl | rfl | rfl <;> simp
  · exact ht.chars covers_unquoted (by simp) hkind hmark

def bared (t : Token) : List Char :=
  if t.kind == .literal then [' '] else t.text.toList

theorem Whole.withoutLiterals {t : Token} (ht : t.Whole) (x : List Char) :
    Text.withoutLiterals (t.text.toList ++ x) = t.bared ++ Text.withoutLiterals x := by
  by_cases hkind : t.kind = .literal
  · obtain ⟨kind, text⟩ := t
    obtain rfl : kind = .literal := hkind
    obtain ⟨body, htext, hbody⟩ := ht.body
    -- The literal ends at its own quote, whatever comes after.
    have hclosed := literalBody_append_quote (by decide) hbody x
    rw [htext, bared]
    simp only [List.cons_append, List.append_assoc, List.nil_append]
    rw [Text.withoutLiterals, if_pos (by decide)]
    split
    · rename_i body' after hfound
      obtain ⟨-, rfl⟩ : body' = body ∧ after = x := by simpa using hfound.symm.trans hclosed
      rfl
    · rename_i hnone
      rw [hnone] at hclosed
      cases hclosed
  · rw [withoutLiterals_append (ht.unquoted hkind), bared, if_neg (by simpa using hkind)]

theorem apart_withoutLiterals {s : List Char} (hs : Apart s) : Apart (Text.withoutLiterals s) := by
  cases s with
  | nil => simpa [Text.withoutLiterals] using hs
  | cons c s =>
    have hc := hs c rfl
    have hquote : ¬(c == '\x27' || c == '\x22') = true := by
      rcases eq_of_separates hc with rfl | rfl | rfl | rfl <;> decide
    rw [Text.withoutLiterals, if_neg hquote]
    exact Apart.cons hc _

def Uncalled (ts : List Token) : Prop :=
  (ts.dropWhile (·.kind == .literal)).head?.any (·.isMark "(") = false

instance (ts : List Token) : Decidable (Uncalled ts) :=
  inferInstanceAs (Decidable (_ = false))

theorem not_blank_of_start {c : Char} {rest : List Char} {kind : TokenKind} {n : Nat}
    (h : start c rest = some (some kind, n)) : isBlank c = false := by
  rw [← Bool.not_eq_true]
  intro hc
  simp [start, hc] at h

/-- Where no parenthesis is next among the tokens, none is next in their text. -/
theorem Laid.not_opensCall {s : List Char} {ts : List Token} (h : Laid s ts) (hts : Uncalled ts) :
    opensCall (Text.withoutLiterals s) = false := by
  induction h with
  | nil => simp [Text.withoutLiterals, opensCall]
  | space _ ih =>
    rw [Text.withoutLiterals, if_neg (by decide), opensCall, List.dropWhile_cons_of_pos (by decide)]
    exact ih hts
  | @token t s ts ht _ _ ih =>
    rw [ht.withoutLiterals, bared]
    by_cases hkind : t.kind = .literal
    · rw [if_pos (by simp [hkind]), opensCall, List.singleton_append, List.dropWhile_cons_of_pos (by decide)]
      rw [Uncalled, List.dropWhile_cons_of_pos (by simp [hkind])] at hts
      exact ih hts
    · rw [if_neg (by simp [hkind])]
      rw [Uncalled, List.dropWhile_cons_of_neg (by simp [hkind])] at hts
      obtain ⟨kind, text⟩ := t
      obtain ⟨c, body, rfl, hs⟩ := ht
      -- Only the mark itself begins with a parenthesis.
      have hopen : c ≠ '(' := by
        rintro rfl
        rw [start_mark (by decide)] at hs
        obtain ⟨hmark, hlength⟩ : TokenKind.mark = kind ∧ 0 = body.length := by simpa using hs
        obtain rfl := List.length_eq_zero_iff.mp hlength.symm
        simp [isMark, ← hmark] at hts
      rw [String.toList_ofList, opensCall, List.cons_append,
        List.dropWhile_cons_of_neg (by simp [not_blank_of_start hs])]
      simpa using hopen

/-- A path among the tokens of a text is one of the paths that are found in it. The induction is on the
text up to the path, past which no path is joined to it. -/
theorem Laid.mem_dottedPaths {s : List Char} {before after : List Token} {path : String}
    (h : Laid s (before ++ word path :: after)) (hpath : isPath path = true) (hafter : Uncalled after) :
    path.toList ∈ dottedPaths (Text.withoutLiterals s) := by
  generalize hts : before ++ word path :: after = ts at h
  induction h generalizing before with
  | nil => simp at hts
  | space _ ih =>
    rw [Text.withoutLiterals, if_neg (by decide), dottedPaths_cons (by decide)]
    exact ih hts
  | @token t s ts ht hends hs ih =>
    rw [ht.withoutLiterals]
    cases before with
    | nil =>
      obtain ⟨rfl, rfl⟩ : word path = t ∧ after = ts := by simpa using hts
      have hapart : Apart s := hends.resolve_left (by simp [word])
      have hfound : dotted (path.toList ++ Text.withoutLiterals s) =
          some (path.toList, Text.withoutLiterals s) := by
        have hwhole := dotted_of_isPath hpath
        simpa using dotted_append_apart hwhole (apart_withoutLiterals hapart)
      change path.toList ∈ dottedPaths (path.toList ++ Text.withoutLiterals s)
      rw [dottedPaths_of_dotted hfound, hs.not_opensCall hafter]
      simp
    | cons u before =>
      obtain ⟨rfl, hrest⟩ : u = t ∧ before ++ word path :: after = ts := by simpa using hts
      have hlater := ih hrest
      -- A mark is no part of a path, and any other token ends where a gap or a mark follows.
      rcases hends with hmark | hapart
      · obtain ⟨c, hc, rfl⟩ := ht.exists_mark hmark
        have hfirst : isIdentFirst c = false := by rcases hc with rfl | rfl | rfl <;> decide
        have hbared : bared ⟨.mark, .ofList [c]⟩ = [c] := by simp [bared]
        rw [hbared, List.singleton_append, dottedPaths_cons hfirst]
        exact hlater
      · exact mem_dottedPaths_append hlater (apart_withoutLiterals hapart) _

end Soql.Token
