import Soql.Proofs.Query.ClauseTexts
import Soql.Proofs.Repair.Fits
import Soql.Proofs.Text.Replace
import Soql.Proofs.Validation.PathErrors

namespace Soql.Text

/-- The body of a literal: no quote ends it, and a backslash takes the next character with it. -/
inductive Body : List Char → Prop
  | nil : Body []
  | pair {c : Char} {rest : List Char} (hline : c ≠ '\n') (h : Body rest) : Body ('\\' :: c :: rest)
  | char {c : Char} {rest : List Char} (hquote : c ≠ '\x27') (hback : c ≠ '\\') (h : Body rest) : Body (c :: rest)

def escaped (s : String) : List Char :=
  replaceAll ['\x27'] ['\\', '\x27'] s.toList

theorem asLiteral_eq (s : String) : asLiteral s = '\x27' :: (escaped s ++ ['\x27']) :=
  rfl

theorem body_of_literalBody {s body after : List Char} (h : literalBody '\x27' s = some (body, after)) :
    Body body := by
  fun_induction literalBody '\x27' s generalizing body after with
  | case1 => cases h
  | case2 c rest hline ih =>
    obtain ⟨⟨body', after'⟩, found, eq⟩ := Option.map_eq_some_iff.mp h
    cases eq
    exact .pair (by simpa using hline) (ih found)
  | case3 =>
    cases h
    exact .nil
  | case4 => cases h
  | case5 c rest _ hquote hback ih =>
    obtain ⟨⟨body', after'⟩, found, eq⟩ := Option.map_eq_some_iff.mp h
    cases eq
    exact .char (by simpa using hquote) (by simpa using hback) (ih found)
  | case6 => cases h

/-- A body ends at the quote after it. -/
theorem Body.literalBody {body : List Char} (h : Body body) (x : List Char) :
    Text.literalBody '\x27' (body ++ '\x27' :: x) = some (body, x) := by
  induction h with
  | nil => rfl
  | pair hline _ ih => simp [Text.literalBody, hline, ih]
  | char hquote hback _ ih => simp [Text.literalBody, hquote, hback, ih]

section Exchange

variable {old new : String} (hold : Body (escaped old))

include hold

/-- A literal is found from an open quote on just when it is the whole literal that begins there. -/
theorem isPrefixOf_asLiteral_iff {body : List Char} (hbody : Body body) (rest : List Char) :
    (asLiteral old).isPrefixOf ('\x27' :: (body ++ '\x27' :: rest)) = true ↔ body = escaped old := by
  rw [List.isPrefixOf_iff_prefix, asLiteral_eq, List.cons_prefix_cons]
  constructor
  · rintro ⟨-, more, hmore⟩
    -- Both bodies are read from the same characters, so they are the same.
    have hread := hbody.literalBody rest
    rw [← hmore, List.append_assoc, List.singleton_append, hold.literalBody] at hread
    exact (congrArg Prod.fst (Option.some.inj hread)).symm
  · rintro rfl
    exact ⟨rfl, rest, by simp⟩

/-- Nothing is exchanged in a body that does not end in an escaped quote and the literal. The induction is on
the body, so that an escaped quote is never taken for an open one. -/
theorem replaceFrom_inside {body rest : List Char} (hbody : Body body)
    (hends : ¬('\\' :: '\x27' :: escaped old) <:+ body)
    (hclosing : ¬(asLiteral old).isPrefixOf ('\x27' :: rest) = true) :
    replaceFrom (asLiteral old) (asLiteral new) 0 (body ++ '\x27' :: rest) =
      body ++ '\x27' :: replaceFrom (asLiteral old) (asLiteral new) 0 rest := by
  have hother {c : Char} (hc : c ≠ '\x27') (s : List Char) : ¬(asLiteral old).isPrefixOf (c :: s) = true := by
    rw [asLiteral_eq]
    simp [Ne.symm hc]
  induction hbody with
  | nil => rw [List.nil_append, replaceFrom, if_neg hclosing, List.nil_append]
  | @pair c inside _ hinside ih =>
    have hfound : ¬(asLiteral old).isPrefixOf (c :: (inside ++ '\x27' :: rest)) = true := by
      by_cases hc : c = '\x27'
      · rw [hc, isPrefixOf_asLiteral_iff hold hinside]
        rintro rfl
        exact hends (hc ▸ List.suffix_rfl)
      · exact hother hc _
    rw [List.cons_append, List.cons_append, replaceFrom, if_neg (hother (by decide) _), replaceFrom, if_neg hfound,
      ih fun h => hends (h.trans ⟨['\\', c], rfl⟩)]
    rfl
  | @char c inside hquote _ hinside ih =>
    rw [List.cons_append, replaceFrom, if_neg (hother hquote _), ih fun h => hends (h.trans ⟨[c], rfl⟩)]
    rfl

/-- A literal is exchanged as a whole, or stays as it is. -/
theorem replaceFrom_quoted {body rest : List Char} (hbody : Body body)
    (hends : ¬('\\' :: '\x27' :: escaped old) <:+ body)
    (hclosing : ¬(asLiteral old).isPrefixOf ('\x27' :: rest) = true) :
    replaceFrom (asLiteral old) (asLiteral new) 0 ('\x27' :: (body ++ '\x27' :: rest)) =
      (if body = escaped old then asLiteral new else '\x27' :: (body ++ ['\x27'])) ++
        replaceFrom (asLiteral old) (asLiteral new) 0 rest := by
  have hfound := isPrefixOf_asLiteral_iff hold hbody rest
  by_cases hsame : body = escaped old
  · have hlength : (asLiteral old).length - 1 = (body ++ ['\x27']).length := by
      rw [asLiteral_eq, hsame, List.length_cons, Nat.add_sub_cancel]
    have hsplit : body ++ '\x27' :: rest = (body ++ ['\x27']) ++ rest := by simp
    rw [replaceFrom, if_pos (hfound.mpr hsame), if_pos hsame, hlength, hsplit, replaceFrom_covered]
  · rw [replaceFrom, if_neg fun h => hsame (hfound.mp h), if_neg hsame, replaceFrom_inside hold hbody hends hclosing]
    simp

end Exchange

/-- A text is read back from the literal that it is written as. -/
structure ReadsBack (s : String) : Prop where
  body : literalBody '\x27' (escaped s ++ ['\x27']) = some (escaped s, [])
  text : unescape (escaped s) = s.toList

/-- Without backslashes, unescaping undoes escaping. -/
theorem unescape_escaped {s : String} (h : '\\' ∉ s.toList) : unescape (escaped s) = s.toList := by
  have hquotes : replaceAll ['\\', '\x27'] ['\x27'] (escaped s) = s.toList := by
    unfold escaped
    generalize s.toList = t at h
    induction t with
    | nil => rfl
    | cons c t ih =>
      rw [List.mem_cons, not_or] at h
      rw [escaped_cons]
      by_cases hc : c = '\x27'
      · rw [if_pos hc, hc]
        exact congrArg ('\x27' :: ·) (ih h.2)
      · have hstart : ¬['\\', '\x27'].isPrefixOf (c :: replaceAll ['\x27'] ['\\', '\x27'] t) = true := by simp [h.1]
        rw [if_neg hc, List.singleton_append, replaceAll, replaceFrom, if_neg hstart]
        exact congrArg (c :: ·) (ih h.2)
  rw [unescape, hquotes]
  apply replaceAll_of_not_infix
  exact fun hinside => h (hinside.subset List.mem_cons_self)

theorem readsBack_of_plain {s : String} (h : '\\' ∉ s.toList) : ReadsBack s :=
  ⟨(neat_escaped h).literalBody [], unescape_escaped h⟩

end Soql.Text

namespace Soql.Query

open Text Token

/-- A value in which one literal is exchanged for another: as a whole or not at all. -/
def exchanged (old new value : String) : String :=
  if value.toList = asLiteral old then .ofList (asLiteral new) else value

/-- A value is one of these, or all of them in parentheses. -/
def Lists (value : String) (vs : List String) : Prop :=
  (∀ v ∈ vs, IsValue v) ∧ (vs = [value] ∨ vs ≠ [] ∧ value = "(" ++ joined ", " vs ++ ")")

/-- A literal is told from everything else in a value: it is written with nothing but its quotes escaped, no
literal ends in a quote followed by it, and in a list it does not begin with the comma between two values. -/
structure Told (literal value : String) : Prop where
  plain : ∀ body ∈ literalBodies value.toList, String.ofList (unescape body) = literal → body = escaped literal
  apart : ∀ body ∈ literalBodies value.toList, ¬('\\' :: '\x27' :: escaped literal) <:+ body
  comma : value.toList.head? = some '(' → literal.toList.head? ≠ some ','

theorem lists_of_fits {op : Operator} {value : String} (h : ValueFits op value) : ∃ vs, Lists value vs := by
  have hlist {first : String} (h : IsValueList first value) : ∃ vs, Lists value vs := by
    obtain ⟨v, others, -, hvalue, hall⟩ := h.values
    exact ⟨v :: others, hall, .inr ⟨List.cons_ne_nil _ _, hvalue⟩⟩
  have hone (h : IsValue value) : ∃ vs, Lists value vs := ⟨[value], by simpa using h, .inl rfl⟩
  cases op with
  | isIn | notIn =>
    obtain ⟨first, -, h⟩ := h
    exact hlist h
  | includes | excludes =>
    obtain ⟨first, h⟩ := h
    exact hlist h
  | equal | unequal | angled | less | atMost | greater | atLeast | like => exact hone h

theorem literalBodies_lists {value : String} {vs : List String} (h : Lists value vs) :
    literalBodies value.toList = vs.flatMap fun v => literalBodies v.toList := by
  obtain ⟨hvalues, rfl | ⟨hne, rfl⟩⟩ := h
  · simp
  · obtain ⟨v, others, rfl⟩ := List.exists_cons_of_ne_nil hne
    exact literalBodies_list hvalues

theorem Lists.mem_literalBodies {value : String} {vs : List String} (h : Lists value vs) {v : String} (hv : v ∈ vs)
    {body : List Char} (hbody : body ∈ literalBodies v.toList) : body ∈ literalBodies value.toList := by
  rw [literalBodies_lists h]
  exact List.mem_flatMap.mpr ⟨v, hv, hbody⟩

theorem literalBodies_unquoted {s : List Char} (h : '\x27' ∉ s) : literalBodies s = [] := by
  simpa [literalBodies] using literalBodies_free h []

section

variable {old new : String} (hold : Body (escaped old))

/-- A literal is the one that is looked for just when its body is. -/
theorem eq_asLiteral_iff {v : String} {body : List Char} (hv : v.toList = '\x27' :: (body ++ ['\x27'])) :
    v.toList = asLiteral old ↔ body = escaped old := by
  rw [hv, asLiteral_eq, List.cons.injEq, List.append_left_inj]
  exact and_iff_right rfl

theorem ne_asLiteral_of_free {v : String} (hfree : '\x27' ∉ v.toList) : v.toList ≠ asLiteral old := by
  intro hsame
  rw [hsame, asLiteral_eq] at hfree
  exact hfree List.mem_cons_self

theorem isValue_exchanged (hnew : ReadsBack new) {v : String} (h : IsValue v) : IsValue (exchanged old new v) := by
  unfold exchanged
  split
  · have htext : (String.ofList (asLiteral new)).toList = '\x27' :: (escaped new ++ ['\x27']) := String.toList_ofList
    exact readValue_literal (t := ⟨.literal, _⟩) (whole_of_body htext hnew.body) (.inl rfl)
  · exact h

/-- The literals of a value are exchanged one by one. -/
theorem literals_exchanged (hnew : ReadsBack new) (htext : unescape (escaped old) = old.toList) {v : String}
    (h : IsValue v) (hplain : ∀ body ∈ literalBodies v.toList, String.ofList (unescape body) = old →
      body = escaped old) :
    literalsOf (exchanged old new v) = (literalsOf v).map fun l => if l = old then new else l := by
  have hone {s : String} {body : List Char} (hs : s.toList = '\x27' :: (body ++ ['\x27']))
      (hbody : literalBody '\x27' (body ++ ['\x27']) = some (body, [])) :
      literalsOf s = [.ofList (unescape body)] := by
    rw [literalsOf, hs, literalBodies_literal hbody]
    simp [literalBodies]
  rcases h.shape with hfree | ⟨body, hv, hbody⟩
  · rw [exchanged, if_neg (ne_asLiteral_of_free hfree), literalsOf, literalBodies_unquoted hfree]
    rfl
  · rw [exchanged, hone hv hbody]
    by_cases hfound : body = escaped old
    · have hread : String.ofList (unescape body) = old := by rw [hfound, htext, String.ofList_toList]
      have hnewText : (String.ofList (asLiteral new)).toList = '\x27' :: (escaped new ++ ['\x27']) :=
        String.toList_ofList
      rw [if_pos ((eq_asLiteral_iff hv).mpr hfound), hone hnewText hnew.body, hnew.text, String.ofList_toList]
      simp [hread]
    · have hother : String.ofList (unescape body) ≠ old := by
        intro hread
        refine hfound (hplain body ?_ hread)
        rw [hv, literalBodies_literal hbody]
        exact List.mem_cons_self
      rw [if_neg fun h => hfound ((eq_asLiteral_iff hv).mp h), hone hv hbody]
      simp [hother]

include hold

/-- In the text of a value that something follows the value is exchanged. -/
theorem replaceFrom_value {v : String} (h : IsValue v)
    (hapart : ∀ body ∈ literalBodies v.toList, ¬('\\' :: '\x27' :: escaped old) <:+ body) {rest : List Char}
    (hclosing : ¬(asLiteral old).isPrefixOf ('\x27' :: rest) = true) :
    replaceFrom (asLiteral old) (asLiteral new) 0 (v.toList ++ rest) =
      (exchanged old new v).toList ++ replaceFrom (asLiteral old) (asLiteral new) 0 rest := by
  rcases h.shape with hfree | ⟨body, hv, hbody⟩
  · rw [exchanged, if_neg (ne_asLiteral_of_free hfree)]
    exact replaceFrom_unquoted hfree rest
  · have hmem : body ∈ literalBodies v.toList := by
      rw [hv, literalBodies_literal hbody]
      exact List.mem_cons_self
    have hsplit : v.toList ++ rest = '\x27' :: (body ++ '\x27' :: rest) := by simp [hv]
    rw [hsplit, replaceFrom_quoted hold (body_of_literalBody hbody) (hapart body hmem) hclosing, exchanged]
    by_cases hfound : body = escaped old
    · rw [if_pos hfound, if_pos ((eq_asLiteral_iff hv).mpr hfound), String.toList_ofList]
    · rw [if_neg hfound, if_neg fun h => hfound ((eq_asLiteral_iff hv).mp h), hv]

theorem replaceFrom_row {v : String} {others : List String} (h : ∀ y ∈ v :: others, IsValue y)
    (hapart : ∀ y ∈ v :: others, ∀ body ∈ literalBodies y.toList, ¬('\\' :: '\x27' :: escaped old) <:+ body)
    (hcomma : old.toList.head? ≠ some ',') :
    replaceFrom (asLiteral old) (asLiteral new) 0 ((joined ", " (v :: others)).toList ++ [')']) =
      (joined ", " ((v :: others).map (exchanged old new))).toList ++ [')'] := by
  unfold joined
  induction others generalizing v with
  | nil =>
    have hclosing := not_found_at_closing hcomma (.inr (.inl rfl))
    rw [String.intercalate_singleton,
      replaceFrom_value hold (h v List.mem_cons_self) (hapart v List.mem_cons_self) hclosing]
    rfl
  | cons w others ih =>
    have hrest := ih (fun y hy => h y (List.mem_cons_of_mem v hy)) fun y hy => hapart y (List.mem_cons_of_mem v hy)
    have hfollows : FollowsLiteral (',' :: (' ' :: ((String.intercalate ", " (w :: others)).toList ++ [')']))) :=
      .inr (.inr ⟨_, rfl⟩)
    have hfirst := @replaceFrom_value old new hold v (h v List.mem_cons_self) (hapart v List.mem_cons_self) _
      (not_found_at_closing hcomma hfollows)
    -- The comma and the space between two values hold no quote.
    have hbetween : replaceFrom (asLiteral old) (asLiteral new) 0
        ([',', ' '] ++ ((String.intercalate ", " (w :: others)).toList ++ [')'])) = _ :=
      replaceFrom_unquoted (by decide) _
    rw [hrest] at hbetween
    rw [String.intercalate_cons_cons, List.map_cons, List.map_cons, String.intercalate_cons_cons]
    simp only [String.toList_append, List.append_assoc]
    exact hfirst.trans (congrArg ((exchanged old new v).toList ++ ·) hbetween)

/-- In a value each of its parts is exchanged by itself. -/
theorem lists_exchanged (hnew : ReadsBack new) {value : String} {vs : List String} (h : Lists value vs)
    (htold : Told old value) :
    Lists (.ofList (replaceAll (asLiteral old) (asLiteral new) value.toList)) (vs.map (exchanged old new)) := by
  have hapart : ∀ v ∈ vs, ∀ body ∈ literalBodies v.toList, ¬('\\' :: '\x27' :: escaped old) <:+ body :=
    fun v hv body hbody => htold.apart body (h.mem_literalBodies hv hbody)
  have hvalues : ∀ v ∈ vs.map (exchanged old new), IsValue v := by
    intro v hv
    obtain ⟨before, hbefore, rfl⟩ := List.mem_map.mp hv
    exact isValue_exchanged hnew (h.1 before hbefore)
  -- Alone, a value is followed by nothing that a literal could go on into.
  have hone (hvalue : IsValue value) (hvs : vs = [value]) :
      String.ofList (replaceAll (asLiteral old) (asLiteral new) value.toList) = exchanged old new value := by
    have hclosing : ¬(asLiteral old).isPrefixOf ['\x27'] = true := by simp [asLiteral_eq]
    have hreplaced := @replaceFrom_value old new hold value hvalue (hapart value (by simp [hvs])) [] hclosing
    rw [List.append_nil, replaceFrom, List.append_nil] at hreplaced
    rw [replaceAll, hreplaced, String.ofList_toList]
  refine ⟨hvalues, ?_⟩
  rcases h.2 with hvs | ⟨hne, hvalue⟩
  · left
    rw [hone (h.1 value (by simp [hvs])) hvs, hvs]
    rfl
  · right
    refine ⟨by simpa using hne, ?_⟩
    obtain ⟨v, others, rfl⟩ := List.exists_cons_of_ne_nil hne
    have hcomma : old.toList.head? ≠ some ',' := by
      apply htold.comma
      rw [hvalue, String.toList_append, String.toList_append]
      rfl
    have hopen : replaceFrom (asLiteral old) (asLiteral new) 0
        (['('] ++ ((joined ", " (v :: others)).toList ++ [')'])) = _ := replaceFrom_unquoted (by decide) _
    rw [replaceFrom_row hold h.1 hapart hcomma] at hopen
    apply String.toList_injective
    rw [String.toList_ofList, replaceAll, hvalue]
    simpa [List.append_assoc] using hopen

end

theorem literalsOf_lists {value : String} {vs : List String} (h : Lists value vs) :
    literalsOf value = vs.flatMap literalsOf := by
  rw [literalsOf, literalBodies_lists h, List.map_flatMap]
  rfl

/-- A literal that a value holds as it is looked for is read back from there. -/
theorem readsBack_of_told {literal value : String} {vs : List String} (h : Lists value vs) (htold : Told literal value)
    (hmem : literal ∈ literalsOf value) :
    Body (escaped literal) ∧ unescape (escaped literal) = literal.toList := by
  obtain ⟨body, hbody, hread⟩ := List.mem_map.mp hmem
  obtain rfl := htold.plain body hbody hread
  refine ⟨?_, by simpa using congrArg String.toList hread⟩
  rw [literalBodies_lists h] at hbody
  obtain ⟨v, hv, hbody⟩ := List.mem_flatMap.mp hbody
  rcases (h.1 v hv).shape with hfree | ⟨inside, heq, hinside⟩
  · rw [literalBodies_unquoted hfree] at hbody
    cases hbody
  · rw [heq, literalBodies_literal hinside] at hbody
    have hsame : escaped literal = inside := by simpa [literalBodies] using hbody
    rw [hsame]
    exact body_of_literalBody hinside

/-- All literals of a value are exchanged one by one. -/
theorem literalsOf_replaced {old new value : String} {vs : List String} (h : Lists value vs) (htold : Told old value)
    (hold : old ∈ literalsOf value) (hnew : ReadsBack new) :
    literalsOf (.ofList (replaceAll (asLiteral old) (asLiteral new) value.toList)) =
      (literalsOf value).map fun l => if l = old then new else l := by
  obtain ⟨hbody, htext⟩ := readsBack_of_told h htold hold
  rw [literalsOf_lists (lists_exchanged hbody hnew h htold), literalsOf_lists h, List.flatMap_map, List.map_flatMap]
  apply List.flatMap_congr
  intro v hv
  apply literals_exchanged hnew htext (h.1 v hv)
  exact fun body hmem => htold.plain body (h.mem_literalBodies hv hmem)

end Soql.Query

namespace Soql.Action

open Text Query

/-- A comparison that was read, at its place among the conditions, after one of its literals is exchanged for
another: each value that is the literal is exchanged, and the others stay. So do the literals they stand for,
one by one. -/
theorem relabel_literals {text : String} {q : Query} (hq : parse text = .ok q) {i : Nat} {c : Comparison}
    (hc : q.leaves[i]? = some (.compare c)) {field : String} (hfield : sameLower c.field field = true)
    {old new : String} (hold : old ∈ c.literals) (htold : Told old c.value) (hnew : ReadsBack new) :
    ∃ value, ((replaceLiteral field old new).apply q).leaves[i]? = some (.compare { c with value }) ∧
      (∃ vs, Lists c.value vs ∧ Lists value (vs.map (exchanged old new))) ∧
      literalsOf value = (c.literals.map fun l => if l = old then new else l) ∧
      (new ≠ old → old ∉ literalsOf value) := by
  have hmem : .compare c ∈ q.leaves := List.mem_of_getElem? hc
  obtain ⟨f, hf, hleaf⟩ := mem_leaves.mp hmem
  obtain ⟨-, hfits⟩ := (parse_laid hq).filter f hf _ hleaf
  obtain ⟨vs, hvs⟩ := lists_of_fits hfits
  have hlists := lists_exchanged (readsBack_of_told hvs htold hold).1 hnew hvs htold
  have hliterals := literalsOf_replaced hvs htold hold hnew
  refine ⟨_, ?_, ⟨vs, hvs, hlists⟩, hliterals, ?_⟩
  · rw [apply, leaves_mapFilter, List.getElem?_map, hc, Option.map_some, relabel, if_pos hfield]
  · intro hne
    rw [hliterals, List.mem_map]
    rintro ⟨l, -, hl⟩
    split at hl
    · exact hne hl
    · rename_i hother
      exact hother hl

def rated : String :=
  "SELECT Id FROM Account WHERE Rating IN ('Hott', 'Warm') LIMIT 5"

theorem relabel_literals_rated : ∃ q value, parse rated = .ok q ∧
    ((replaceLiteral "rating" "Hott" "Hot").apply q).leaves[0]? = some (.compare ⟨"Rating", .isIn, value⟩) ∧
    literalsOf value = ["Hot", "Warm"] ∧ "Hott" ∉ literalsOf value := by
  obtain ⟨q, hq, hfine⟩ := exists_ok_of_any (r := parse rated)
    (p := fun q => q.leaves == [.compare ⟨"Rating", .isIn, "('Hott', 'Warm')"⟩]) (by decide +kernel)
  rw [beq_iff_eq] at hfine
  have hfirst : q.leaves[0]? = some (.compare ⟨"Rating", .isIn, "('Hott', 'Warm')"⟩) := by
    rw [hfine]
    rfl
  have hfield : sameLower "Rating" "rating" = true := by decide
  have hliteral : "Hott" ∈ Comparison.literals ⟨"Rating", .isIn, "('Hott', 'Warm')"⟩ := by decide +kernel
  have htold : Told "Hott" "('Hott', 'Warm')" := ⟨by decide +kernel, by decide +kernel, fun _ => by decide⟩
  have hnew : ReadsBack "Hot" := readsBack_of_plain (by decide)
  obtain ⟨value, hvalue, -, hliterals, hgone⟩ := relabel_literals hq hfirst hfield hliteral htold hnew
  exact ⟨q, value, hq, hvalue, hliterals.trans (by decide +kernel), hgone (by decide)⟩

def slashed : String :=
  "SELECT Id FROM Account WHERE Rating = 'Hot\\\\' LIMIT 5"

/-- A literal with a backslash is looked for with one, where the text holds two: it is reported with a value to
take its place, and the correction changes nothing. -/
theorem backslash_kept : ∃ q, parse slashed = .ok q ∧
    q.leaves = [.compare ⟨"Rating", .equal, "'Hot\\\\'"⟩] ∧ literalsOf "'Hot\\\\'" = ["Hot\\"] ∧
    (∃ m ∈ Validator.validate {} q Validator.owned, m.action = some (replaceLiteral "Rating" "Hot\\" "Hot")) ∧
    ((replaceLiteral "Rating" "Hot\\" "Hot").apply q).leaves = q.leaves := by
  obtain ⟨q, hq, hfine⟩ := exists_ok_of_any (r := parse slashed)
    (p := fun q => q.leaves == [.compare ⟨"Rating", .equal, "'Hot\\\\'"⟩] &&
      ((Validator.validate {} q Validator.owned).any (·.action == some (replaceLiteral "Rating" "Hot\\" "Hot"))))
    (by decide +kernel)
  rw [Bool.and_eq_true, beq_iff_eq, List.any_eq_true] at hfine
  obtain ⟨hleaves, m, hm, haction⟩ := hfine
  refine ⟨q, hq, hleaves, by decide +kernel, ⟨m, hm, beq_iff_eq.mp haction⟩, ?_⟩
  rw [apply, leaves_mapFilter, hleaves]
  decide +kernel

end Soql.Action
