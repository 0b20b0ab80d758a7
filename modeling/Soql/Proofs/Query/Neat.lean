import Soql.Proofs.Query.Legible
import Soql.Proofs.Query.Plain

/-!
Literals that can be exchanged in a value. A quote that closes a literal never opens another one by
mistake, as long as no literal begins with the comma that stands between two of them and a backslash
escapes nothing but quotes.
-/

namespace Soql.Text

/-- The body of a literal in which nothing but quotes is escaped. -/
inductive Neat : List Char → Prop
  | nil : Neat []
  | escape {rest : List Char} (h : Neat rest) : Neat ('\\' :: '\x27' :: rest)
  | char {c : Char} {rest : List Char} (hquote : c ≠ '\x27') (hback : c ≠ '\\') (h : Neat rest) :
    Neat (c :: rest)

def isNeat : List Char → Bool
  | '\\' :: c :: rest => c == '\x27' && isNeat rest
  | c :: rest => c != '\x27' && c != '\\' && isNeat rest
  | [] => true

theorem neat_of_isNeat {body : List Char} (h : isNeat body = true) : Neat body := by
  fun_induction isNeat body with
  | case1 c rest ih =>
    rw [Bool.and_eq_true, beq_iff_eq] at h
    obtain ⟨rfl, h⟩ := h
    exact .escape (ih h)
  | case2 c rest hshape ih =>
    rw [Bool.and_eq_true, Bool.and_eq_true, bne_iff_ne, bne_iff_ne] at h
    exact .char h.1.1 h.1.2 (ih h.2)
  | case3 => exact .nil

theorem Neat.isNeat {body : List Char} (h : Neat body) : Text.isNeat body = true := by
  induction h with
  | nil => rfl
  | escape _ ih => simp [Text.isNeat, ih]
  | char hquote hback _ ih =>
    unfold Text.isNeat
    split
    · simp_all
    · simp_all
    · rfl

/-- A neat body ends at the first quote that is not escaped. -/
theorem Neat.literalBody {body : List Char} (h : Neat body) (x : List Char) :
    Text.literalBody '\x27' (body ++ '\x27' :: x) = some (body, x) := by
  induction h with
  | nil => rfl
  | escape _ ih => simp [Text.literalBody, ih]
  | char hquote hback _ ih => simp [Text.literalBody, hquote, hback, ih]

/-- Escaping the quotes of a text without backslashes makes it a neat body. -/
theorem neat_escaped {s : List Char} (h : '\\' ∉ s) :
    Neat (replaceAll ['\x27'] ['\\', '\x27'] s) := by
  unfold replaceAll
  induction s with
  | nil => exact .nil
  | cons c s ih =>
    rw [List.mem_cons, not_or] at h
    by_cases hc : c = '\x27'
    · subst hc
      exact .escape (ih h.2)
    · have hne : ¬['\x27'].isPrefixOf (c :: s) = true := by simpa using Ne.symm hc
      rw [replaceFrom, if_neg hne]
      exact .char hc (Ne.symm h.1) (ih h.2)

theorem head_escaped {s : List Char} (h : s.head? ≠ some ',') :
    (replaceAll ['\x27'] ['\\', '\x27'] s).head? ≠ some ',' := by
  unfold replaceAll
  cases s with
  | nil => simp [replaceFrom]
  | cons c s =>
    rw [replaceFrom]
    split
    · simp
    · simpa using h

def isTidyBody (body : List Char) : Bool :=
  isNeat body && body.head? != some ','

theorem isTidyBody_iff {body : List Char} :
    isTidyBody body = true ↔ Neat body ∧ body.head? ≠ some ',' := by
  rw [isTidyBody, Bool.and_eq_true, bne_iff_ne]
  exact and_congr ⟨neat_of_isNeat, Neat.isNeat⟩ Iff.rfl

structure Exchangeable (text : String) : Prop where
  backslash : '\\' ∉ text.toList
  comma : text.toList.head? ≠ some ','

theorem Exchangeable.escaped {text : String} (h : Exchangeable text) :
    Neat (replaceAll ['\x27'] ['\\', '\x27'] text.toList) ∧
      (replaceAll ['\x27'] ['\\', '\x27'] text.toList).head? ≠ some ',' :=
  ⟨neat_escaped h.backslash, head_escaped h.comma⟩

/-- Where a text begins with a character that another one does not hold, nothing is exchanged. -/
theorem replaceFrom_of_not_mem {c : Char} {old new s : List Char} (h : c ∉ s) (rest : List Char) :
    replaceFrom (c :: old) new 0 (s ++ rest) = s ++ replaceFrom (c :: old) new 0 rest := by
  induction s with
  | nil => rfl
  | cons d s ih =>
    rw [List.mem_cons, not_or] at h
    have hne : ¬(c :: old).isPrefixOf (d :: (s ++ rest)) = true := by simp [h.1]
    rw [List.cons_append, replaceFrom, if_neg hne, ih h.2]
    rfl

theorem replaceFrom_unquoted {old new : String} {s : List Char} (h : '\x27' ∉ s) (rest : List Char) :
    replaceFrom (asLiteral old) (asLiteral new) 0 (s ++ rest) =
      s ++ replaceFrom (asLiteral old) (asLiteral new) 0 rest := by
  rw [asLiteral, List.cons_append]
  exact replaceFrom_of_not_mem h rest

theorem replaceFrom_covered {old new : List Char} (s rest : List Char) :
    replaceFrom old new s.length (s ++ rest) = replaceFrom old new 0 rest := by
  induction s with
  | nil => rfl
  | cons c s ih => rw [List.length_cons, List.cons_append, replaceFrom, ih]

theorem backslash_not_mem_unescaped {body : List Char} (h : Neat body) :
    '\\' ∉ replaceAll ['\\', '\x27'] ['\x27'] body := by
  unfold replaceAll
  induction h with
  | nil => exact List.not_mem_nil
  | @escape rest _ ih =>
    have hstep : replaceFrom ['\\', '\x27'] ['\x27'] 0 ('\\' :: '\x27' :: rest) =
        '\x27' :: replaceFrom ['\\', '\x27'] ['\x27'] 0 rest := rfl
    rw [hstep, List.mem_cons, not_or]
    exact ⟨by decide, ih⟩
  | @char c rest hquote hback _ ih =>
    have hne : ¬['\\', '\x27'].isPrefixOf (c :: rest) = true := by simp [Ne.symm hback]
    rw [replaceFrom, if_neg hne, List.mem_cons, not_or]
    exact ⟨Ne.symm hback, ih⟩

theorem head_unescaped {body : List Char} (h : Neat body) (hcomma : body.head? ≠ some ',') :
    (replaceAll ['\\', '\x27'] ['\x27'] body).head? ≠ some ',' := by
  unfold replaceAll
  cases h with
  | nil => exact hcomma
  | @escape rest _ =>
    have hstep : replaceFrom ['\\', '\x27'] ['\x27'] 0 ('\\' :: '\x27' :: rest) =
        '\x27' :: replaceFrom ['\\', '\x27'] ['\x27'] 0 rest := rfl
    rw [hstep]
    simp
  | @char c rest hquote hback _ =>
    have hne : ¬['\\', '\x27'].isPrefixOf (c :: rest) = true := by simp [Ne.symm hback]
    rw [replaceFrom, if_neg hne]
    exact hcomma

/-- What a tidy body stands for can be exchanged. -/
theorem exchangeable_unescape {body : List Char} (hneat : Neat body) (hcomma : body.head? ≠ some ',') :
    Exchangeable (.ofList (unescape body)) := by
  have hplain := backslash_not_mem_unescaped hneat
  have hsame : unescape body = replaceAll ['\\', '\x27'] ['\x27'] body := by
    rw [unescape, replaceAll]
    generalize replaceAll ['\\', '\x27'] ['\x27'] body = s at hplain
    have hrest : replaceFrom ['\\', '\\'] ['\\'] 0 (s ++ []) = s ++ [] := replaceFrom_of_not_mem hplain []
    simpa using hrest
  refine ⟨?_, ?_⟩
  · rw [String.toList_ofList, hsame]
    exact hplain
  · rw [String.toList_ofList, hsame]
    exact head_unescaped hneat hcomma

/-- What follows a literal in a value: nothing, the end of the list, or another value. -/
def FollowsLiteral (rest : List Char) : Prop :=
  rest = [] ∨ rest = [')'] ∨ ∃ more, rest = ',' :: more

/-- A literal is not found from the closing quote of another one on. -/
theorem not_found_at_closing {text : String} (h : text.toList.head? ≠ some ',') {rest : List Char}
    (hrest : FollowsLiteral rest) : ¬(asLiteral text).isPrefixOf ('\x27' :: rest) = true := by
  rw [List.isPrefixOf_iff_prefix, asLiteral, List.cons_append, List.cons_prefix_cons]
  rintro ⟨-, hstart⟩
  have hhead := head_escaped h
  cases hbody : replaceAll ['\x27'] ['\\', '\x27'] text.toList with
  | nil =>
    rw [hbody, List.nil_append] at hstart
    rcases hrest with rfl | rfl | ⟨more, rfl⟩ <;> simp at hstart
  | cons c body =>
    rw [hbody] at hstart hhead
    rcases hrest with rfl | rfl | ⟨more, rfl⟩
    · simp at hstart
    · -- Only the parenthesis is left, and a literal has a closing quote as well.
      have hlength := hstart.length_le
      simp at hlength
    · rw [List.cons_append, List.cons_prefix_cons] at hstart
      exact hhead (by simp [hstart.1])

/-- A literal that is found from an open quote on is the whole literal that begins there. -/
theorem eq_of_found {text : String} (h : Exchangeable text) {body : List Char} (hbody : Neat body)
    {rest : List Char} (hstart : (asLiteral text).isPrefixOf ('\x27' :: (body ++ '\x27' :: rest)) = true) :
    asLiteral text = '\x27' :: (body ++ ['\x27']) := by
  rw [List.isPrefixOf_iff_prefix, asLiteral, List.cons_append, List.cons_prefix_cons] at hstart
  obtain ⟨more, hmore⟩ := hstart.2
  -- Both bodies are read from the same characters, so they are the same.
  have hread := hbody.literalBody rest
  rw [← hmore, List.append_assoc, List.singleton_append, (neat_escaped h.backslash).literalBody] at hread
  have hsame := congrArg Prod.fst (Option.some.inj hread)
  simp only at hsame
  rw [asLiteral, hsame]
  rfl

section

variable {old new : String}

/-- Exchanging a literal from an open quote on, where it is found there. -/
theorem replaceFrom_found (hold : Exchangeable old) {body rest : List Char} (hbody : Neat body)
    (hfound : (asLiteral old).isPrefixOf ('\x27' :: (body ++ '\x27' :: rest)) = true) :
    replaceFrom (asLiteral old) (asLiteral new) 0 ('\x27' :: (body ++ '\x27' :: rest)) =
      asLiteral new ++ replaceFrom (asLiteral old) (asLiteral new) 0 rest := by
  have heq := eq_of_found hold hbody hfound
  have hlength : (asLiteral old).length - 1 = (body ++ ['\x27']).length := by
    rw [heq, List.length_cons, Nat.add_sub_cancel]
  have hsplit : body ++ '\x27' :: rest = (body ++ ['\x27']) ++ rest := by simp
  rw [replaceFrom, if_pos hfound, hlength, hsplit, replaceFrom_covered]

variable (hold : Exchangeable old) (hnew : Exchangeable new)

include hold hnew

/-- An exchange in the body of a literal leaves a neat body that begins alike. -/
theorem replaceFrom_body {body rest : List Char} (hbody : Neat body) (hrest : FollowsLiteral rest) :
    ∃ body', Neat body' ∧ body'.head? = body.head? ∧
      replaceFrom (asLiteral old) (asLiteral new) 0 (body ++ '\x27' :: rest) =
        body' ++ '\x27' :: replaceFrom (asLiteral old) (asLiteral new) 0 rest := by
  have hshape : asLiteral old = '\x27' :: (replaceAll ['\x27'] ['\\', '\x27'] old.toList ++ ['\x27']) := rfl
  induction hbody with
  | nil =>
    refine ⟨[], .nil, rfl, ?_⟩
    rw [List.nil_append, replaceFrom, if_neg (not_found_at_closing hold.comma hrest)]
    rfl
  | @escape inside hinside ih =>
    have hfirst : ¬(asLiteral old).isPrefixOf ('\\' :: ('\x27' :: (inside ++ '\x27' :: rest))) = true := by
      rw [hshape]
      simp
    by_cases hfound : (asLiteral old).isPrefixOf ('\x27' :: (inside ++ '\x27' :: rest)) = true
    · -- The literal is found from an escaped quote on; the new one escapes its quote in turn.
      refine ⟨'\\' :: '\x27' :: replaceAll ['\x27'] ['\\', '\x27'] new.toList, .escape hnew.escaped.1, rfl, ?_⟩
      rw [List.cons_append, List.cons_append, replaceFrom, if_neg hfirst,
        replaceFrom_found hold hinside hfound, asLiteral]
      simp
    · obtain ⟨body', hneat, hhead, hinside'⟩ := ih
      refine ⟨'\\' :: '\x27' :: body', .escape hneat, rfl, ?_⟩
      rw [List.cons_append, List.cons_append, replaceFrom, if_neg hfirst, replaceFrom, if_neg hfound, hinside']
      rfl
  | @char c inside hquote hback hinside ih =>
    obtain ⟨body', hneat, hhead, hinside'⟩ := ih
    have hfirst : ¬(asLiteral old).isPrefixOf (c :: (inside ++ '\x27' :: rest)) = true := by
      rw [hshape]
      simp [Ne.symm hquote]
    refine ⟨c :: body', .char hquote hback hneat, rfl, ?_⟩
    rw [List.cons_append, replaceFrom, if_neg hfirst, hinside']
    rfl

/-- An exchange in a literal leaves a literal. -/
theorem replaceFrom_literal {body rest : List Char} (hbody : Neat body) (hcomma : body.head? ≠ some ',')
    (hrest : FollowsLiteral rest) : ∃ body', Neat body' ∧ body'.head? ≠ some ',' ∧
      replaceFrom (asLiteral old) (asLiteral new) 0 ('\x27' :: (body ++ '\x27' :: rest)) =
        '\x27' :: (body' ++ '\x27' :: replaceFrom (asLiteral old) (asLiteral new) 0 rest) := by
  by_cases hfound : (asLiteral old).isPrefixOf ('\x27' :: (body ++ '\x27' :: rest)) = true
  · refine ⟨_, hnew.escaped.1, hnew.escaped.2, ?_⟩
    rw [replaceFrom_found hold hbody hfound, asLiteral]
    simp
  · obtain ⟨body', hneat, hhead, hbody'⟩ := replaceFrom_body hold hnew hbody hrest
    refine ⟨body', hneat, hhead ▸ hcomma, ?_⟩
    rw [replaceFrom, if_neg hfound, hbody']

end

end Soql.Text

namespace Soql.Query

open Text Token

def isTidyValue (value : String) : Bool :=
  (literalBodies value.toList).all isTidyBody

theorem covers_unquoted : Covers (· ≠ '\x27') where
  decimal := by
    rintro c hc rfl
    exact absurd hc (by decide)
  ident := by
    rintro c hc rfl
    exact absurd hc (by decide)
  marks := by simp

/-- A value is a literal or holds no quote. -/
theorem IsValue.shape {v : String} (h : IsValue v) : '\x27' ∉ v.toList ∨
    ∃ body, v.toList = '\x27' :: (body ++ ['\x27']) ∧
      literalBody '\x27' (body ++ ['\x27']) = some (body, []) := by
  obtain ⟨t, ht, rfl, hread⟩ := h
  have hrun := hread (fun _ => True) [] trivial
  unfold readValue at hrun
  simp only [run_bind_ok, run_take_ok] at hrun
  obtain ⟨u, _, heq, hrun⟩ := hrun
  obtain ⟨rfl, rfl⟩ := List.cons.inj heq
  have hfree (hkind : t.kind = .date ∨ t.kind = .number ∨ t.kind = .bind ∨ t.kind = .name) :
      '\x27' ∉ t.text.toList := by
    obtain ⟨c, body, htext, hs⟩ := ht
    have hchars := covers_unquoted.start hs hkind
    rw [List.take_length] at hchars
    rw [htext, String.toList_ofList]
    exact fun hmem => hchars _ hmem rfl
  obtain ⟨kind, text⟩ := t
  cases kind with
  | literal => exact .inr ht.body
  | date => exact .inl (hfree (by simp))
  | number => exact .inl (hfree (by simp))
  | bind => exact .inl (hfree (by simp))
  | name => exact .inl (hfree (by simp))
  | operator => exact absurd hrun run_throw_ok
  | mark => exact absurd hrun run_throw_ok

theorem literalBodies_free {s : List Char} (h : '\x27' ∉ s) (rest : List Char) :
    literalBodies (s ++ rest) = literalBodies rest := by
  induction s with
  | nil => rfl
  | cons c s ih =>
    rw [List.mem_cons, not_or] at h
    rw [List.cons_append, literalBodies, if_neg (by simp [Ne.symm h.1]), ih h.2]

theorem literalBodies_literal {s body after : List Char} (h : literalBody '\x27' s = some (body, after)) :
    literalBodies ('\x27' :: s) = body :: literalBodies after := by
  rw [literalBodies, if_pos (by decide)]
  split
  · rename_i found
    rw [h] at found
    cases found
    rfl
  · rename_i found
    rw [h] at found
    cases found

/-- The literals of a value are those of it alone and of what follows. -/
theorem literalBodies_value {v : String} (h : IsValue v) (rest : List Char) :
    literalBodies (v.toList ++ rest) = literalBodies v.toList ++ literalBodies rest := by
  rcases h.shape with hfree | ⟨body, hv, hbody⟩
  · have halone := literalBodies_free hfree []
    rw [List.append_nil] at halone
    rw [literalBodies_free hfree, halone]
    simp [literalBodies]
  · have hlong := literalBody_append_quote (by decide) hbody rest
    rw [hv, List.cons_append, List.append_assoc, List.singleton_append, literalBodies_literal hlong,
      literalBodies_literal hbody]
    simp [literalBodies]

/-- The literals of a list are those of its values. -/
theorem literalBodies_list {v : String} {others : List String} (h : ∀ y ∈ v :: others, IsValue y) :
    literalBodies ("(" ++ joined ", " (v :: others) ++ ")").toList =
      (v :: others).flatMap fun y => literalBodies y.toList := by
  rw [String.toList_append, String.toList_append, List.append_assoc, literalBodies_free (by decide)]
  change literalBodies ((joined ", " (v :: others)).toList ++ [')']) = _
  unfold joined
  induction others generalizing v with
  | nil =>
    rw [String.intercalate_singleton, literalBodies_value (h v (by simp))]
    simp [literalBodies]
  | cons w others ih =>
    rw [String.intercalate_cons_cons, String.toList_append, String.toList_append, List.append_assoc,
      List.append_assoc, literalBodies_value (h v (by simp)), literalBodies_free (by decide),
      ih fun y hy => h y (List.mem_cons_of_mem v hy)]
    rfl

theorem isTidyValue_list {v : String} {others : List String} (h : ∀ y ∈ v :: others, IsValue y) :
    isTidyValue ("(" ++ joined ", " (v :: others) ++ ")") = (v :: others).all isTidyValue := by
  rw [isTidyValue, literalBodies_list h, List.all_flatMap]
  rfl

theorem not_select_of_quote {v : String} (h : v.toList.head? = some '\x27') :
    v.map Char.toUpper ≠ "SELECT" := by
  intro hselect
  have hhead := congrArg (fun s : String => s.toList.head?) hselect
  simp only [String.toList_map, List.head?_map, h] at hhead
  exact absurd hhead (by decide)

section

variable {old new : String} (hold : Exchangeable old) (hnew : Exchangeable new)

include hold hnew

/-- A tidy value stays one when a literal is exchanged, and it is a literal if it changes. -/
theorem exchange_value {v : String} (h : IsValue v) (htidy : isTidyValue v = true) {rest : List Char}
    (hrest : FollowsLiteral rest) : ∃ v', IsValue v' ∧ isTidyValue v' = true ∧
      (v' = v ∨ v'.toList.head? = some '\x27') ∧
      replaceFrom (asLiteral old) (asLiteral new) 0 (v.toList ++ rest) =
        v'.toList ++ replaceFrom (asLiteral old) (asLiteral new) 0 rest := by
  rcases h.shape with hfree | ⟨body, hv, hbody⟩
  · refine ⟨v, h, htidy, .inl rfl, ?_⟩
    exact replaceFrom_unquoted hfree rest
  · have hone := literalBodies_literal hbody
    rw [isTidyValue, hv, hone] at htidy
    have hbody' : isTidyBody body = true := by simpa [literalBodies] using htidy
    obtain ⟨hneat, hcomma⟩ := isTidyBody_iff.mp hbody'
    obtain ⟨inside, hinside, hcomma', hreplaced⟩ := replaceFrom_literal hold hnew hneat hcomma hrest
    have htext : (String.ofList ('\x27' :: (inside ++ ['\x27']))).toList = '\x27' :: (inside ++ ['\x27']) :=
      String.toList_ofList
    have hread := hinside.literalBody []
    refine ⟨.ofList ('\x27' :: (inside ++ ['\x27'])), ?_, ?_, .inr (by rw [htext]; rfl), ?_⟩
    · exact readValue_literal (t := ⟨.literal, _⟩) (whole_of_body htext hread) (.inl rfl)
    · rw [isTidyValue, htext, literalBodies_literal hread]
      simp [literalBodies, isTidyBody_iff.mpr ⟨hinside, hcomma'⟩]
    · rw [hv, htext]
      simpa using hreplaced

theorem exchange_joined {v : String} {others : List String}
    (h : ∀ y ∈ v :: others, IsValue y ∧ isTidyValue y = true) : ∃ v' others',
      (∀ y ∈ v' :: others', IsValue y ∧ isTidyValue y = true) ∧
      (v' = v ∨ v'.toList.head? = some '\x27') ∧
      replaceFrom (asLiteral old) (asLiteral new) 0 ((joined ", " (v :: others)).toList ++ [')']) =
        (joined ", " (v' :: others')).toList ++ [')'] := by
  unfold joined
  induction others generalizing v with
  | nil =>
    obtain ⟨hv, htidy⟩ := h v (by simp)
    obtain ⟨v', hv', htidy', hsame, hreplaced⟩ := exchange_value hold hnew hv htidy (.inr (.inl rfl))
    refine ⟨v', [], by simpa using ⟨hv', htidy'⟩, hsame, ?_⟩
    rw [String.intercalate_singleton, hreplaced, String.intercalate_singleton]
    rfl
  | cons w others ih =>
    obtain ⟨hv, htidy⟩ := h v (by simp)
    obtain ⟨w', others', hall, -, hrest⟩ := ih fun y hy => h y (List.mem_cons_of_mem v hy)
    have hfollows : FollowsLiteral (',' :: (' ' :: ((String.intercalate ", " (w :: others)).toList ++ [')']))) :=
      .inr (.inr ⟨_, rfl⟩)
    obtain ⟨v', hv', htidy', hsame, hreplaced⟩ := exchange_value hold hnew hv htidy hfollows
    refine ⟨v', w' :: others', ?_, hsame, ?_⟩
    · intro y hy
      rcases List.mem_cons.mp hy with rfl | hy
      · exact ⟨hv', htidy'⟩
      · exact hall y hy
    · -- The comma and the space between two values hold no quote.
      have hbetween : replaceFrom (asLiteral old) (asLiteral new) 0
          ([',', ' '] ++ ((String.intercalate ", " (w :: others)).toList ++ [')'])) = _ :=
        replaceFrom_unquoted (by decide) _
      rw [hrest] at hbetween
      rw [String.intercalate_cons_cons, String.intercalate_cons_cons]
      simp only [String.toList_append, List.append_assoc]
      exact hreplaced.trans (congrArg (v'.toList ++ ·) hbetween)

/-- A list of tidy values stays one when a literal is exchanged, and does not come to begin like a
query. -/
theorem exchange_list {first s : String} (h : IsValueList first s) (htidy : isTidyValue s = true) :
    ∃ first', IsValueList first' (.ofList (replaceAll (asLiteral old) (asLiteral new) s.toList)) ∧
      isTidyValue (.ofList (replaceAll (asLiteral old) (asLiteral new) s.toList)) = true ∧
      (first ≠ "SELECT" → first' ≠ "SELECT") := by
  obtain ⟨v, others, rfl, rfl, hvalues⟩ := h.values
  rw [isTidyValue_list hvalues, List.all_eq_true] at htidy
  obtain ⟨v', others', hall, hsame, hreplaced⟩ :=
    exchange_joined hold hnew fun y hy => ⟨hvalues y hy, htidy y hy⟩
  have htext : String.ofList (replaceAll (asLiteral old) (asLiteral new)
      ("(" ++ joined ", " (v :: others) ++ ")").toList) = "(" ++ joined ", " (v' :: others') ++ ")" := by
    have hopen : replaceFrom (asLiteral old) (asLiteral new) 0
        (['('] ++ ((joined ", " (v :: others)).toList ++ [')'])) = _ := replaceFrom_unquoted (by decide) _
    rw [hreplaced] at hopen
    apply String.toList_injective
    rw [String.toList_ofList, replaceAll]
    simpa [List.append_assoc] using hopen
  rw [htext]
  refine ⟨_, isValueList_of_values fun y hy => (hall y hy).1, ?_, ?_⟩
  · rw [isTidyValue_list fun y hy => (hall y hy).1, List.all_eq_true]
    exact fun y hy => (hall y hy).2
  · intro hselect
    rcases hsame with rfl | hquote
    · exact hselect
    · exact not_select_of_quote hquote

/-- A tidy value that fits its operator does so when a literal is exchanged. -/
theorem exchange_fits {op : Operator} {v : String} (h : ValueFits op v) (htidy : isTidyValue v = true) :
    ValueFits op (.ofList (replaceAll (asLiteral old) (asLiteral new) v.toList)) ∧
      isTidyValue (.ofList (replaceAll (asLiteral old) (asLiteral new) v.toList)) = true := by
  have hone (hv : IsValue v) : IsValue (.ofList (replaceAll (asLiteral old) (asLiteral new) v.toList)) ∧
      isTidyValue (.ofList (replaceAll (asLiteral old) (asLiteral new) v.toList)) = true := by
    obtain ⟨v', hv', htidy', -, hreplaced⟩ := exchange_value hold hnew hv htidy (.inl rfl)
    have htext : String.ofList (replaceAll (asLiteral old) (asLiteral new) v.toList) = v' := by
      apply String.toList_injective
      rw [String.toList_ofList, replaceAll]
      simpa [replaceFrom] using hreplaced
    rw [htext]
    exact ⟨hv', htidy'⟩
  cases op with
  | isIn | notIn =>
    obtain ⟨first, hselect, hlist⟩ := h
    obtain ⟨first', hlist', htidy', hselect'⟩ := exchange_list hold hnew hlist htidy
    exact ⟨⟨first', hselect' hselect, hlist'⟩, htidy'⟩
  | includes | excludes =>
    obtain ⟨first, hlist⟩ := h
    obtain ⟨first', hlist', htidy', -⟩ := exchange_list hold hnew hlist htidy
    exact ⟨⟨first', hlist'⟩, htidy'⟩
  | equal | unequal | angled | less | atMost | greater | atLeast | like => exact hone h

end

/-- What the literals of a tidy value stand for can be exchanged. -/
theorem exchangeable_of_mem_literals {c : Comparison} (h : isTidyValue c.value = true) {literal : String}
    (hliteral : literal ∈ c.literals) : Exchangeable literal := by
  obtain ⟨body, hbody, rfl⟩ := List.mem_map.mp hliteral
  obtain ⟨hneat, hcomma⟩ := isTidyBody_iff.mp (List.all_eq_true.mp h body hbody)
  exact exchangeable_unescape hneat hcomma

end Soql.Query
