import Mathlib.Data.List.Forall2
import Soql.Proofs.Query.Starts
import Soql.Query.Parser

namespace Soql.Token

open Text

def Whole (t : Token) : Prop :=
  ∃ c body, t.text = .ofList (c :: body) ∧ start c body = some (some t.kind, body.length)

def Lexes (s : List Char) (tokens : List Token) : Prop :=
  ∀ position, scan position s = .ok tokens

theorem lexes_nil : Lexes [] [] := by
  intro p
  unfold scan
  rfl

theorem lexes_cons {c : Char} {rest : List Char} {kind : TokenKind} {n : Nat} {tokens : List Token}
    (h : start c rest = some (some kind, n)) (hr : Lexes (rest.drop n) tokens) :
    Lexes (c :: rest) (⟨kind, .ofList (c :: rest.take n)⟩ :: tokens) := by
  intro p
  unfold scan
  simp only [h, hr _]

theorem lexes_blank {c : Char} {rest : List Char} {n : Nat} {tokens : List Token}
    (h : start c rest = some (none, n)) (hr : Lexes (rest.drop n) tokens) :
    Lexes (c :: rest) tokens := by
  intro p
  unfold scan
  simp only [h, hr _]

/-- The tokens that a text is read as do not depend on the place where it begins. -/
theorem lexes_of_scan {p : Nat} {s : List Char} {tokens : List Token} (h : scan p s = .ok tokens) :
    Lexes s tokens := by
  fun_induction scan p s generalizing tokens with
  | case1 => cases h; exact lexes_nil
  | case2 => cases h
  | case3 => cases h
  | case4 p c rest further ts hrec kind hs ih =>
    cases h
    exact lexes_cons hs (ih hrec)
  | case5 p c rest further ts hrec hs ih =>
    cases h
    exact lexes_blank hs (ih hrec)

/-- Every token that a text is read as is whole. -/
theorem whole_of_scan {p : Nat} {s : List Char} {tokens : List Token} (h : scan p s = .ok tokens) :
    ∀ t ∈ tokens, t.Whole := by
  fun_induction scan p s generalizing tokens with
  | case1 => cases h; simp
  | case2 => cases h
  | case3 => cases h
  | case4 p c rest further ts hrec kind hs ih =>
    cases h
    intro t ht
    rcases List.mem_cons.mp ht with rfl | ht
    -- Cut out of its text, the token stands before nothing, which cannot lengthen it.
    · have hlen : (rest.take further).length = further := List.length_take_of_le (start_le hs)
      refine ⟨c, rest.take further, rfl, ?_⟩
      simpa [hlen] using start_take_append hs Apart.nil
    · exact ih hrec t ht
  | case5 p c rest further ts hrec hs ih =>
    cases h
    exact ih hrec

/-- A whole token in front of something apart is read first. -/
theorem lexes_token {t : Token} (ht : t.Whole) {x : List Char} {tokens : List Token} (hx : Apart x)
    (hr : Lexes x tokens) : Lexes (t.text.toList ++ x) (t :: tokens) := by
  obtain ⟨kind, text⟩ := t
  obtain ⟨c, body, rfl, hs⟩ := ht
  have h := start_take_append hs hx
  rw [List.take_length] at h
  have hl : Lexes (c :: (body ++ x)) _ := lexes_cons h (by rwa [List.drop_left])
  rw [List.take_left] at hl
  simpa using hl

/-- A mark is read first, whatever follows it. -/
theorem lexes_mark {c : Char} (hc : c = ')' ∨ c = ',' ∨ c = '(') {x : List Char}
    {tokens : List Token} (hr : Lexes x tokens) :
    Lexes (c :: x) (⟨.mark, .ofList [c]⟩ :: tokens) := by
  have hl : Lexes (c :: x) _ := lexes_cons (start_mark hc x) (by simpa using hr)
  simpa using hl

theorem drop_takeWhile {α : Type} (p : α → Bool) (s : List α) :
    s.drop (s.takeWhile p).length = s.dropWhile p := by
  have h := congrArg (List.drop (s.takeWhile p).length)
    (List.takeWhile_append_dropWhile (p := p) (l := s))
  rw [List.drop_left] at h
  exact h.symm

/-- Blanks in front of a text do not count. -/
theorem lexes_dropWhile_iff (s : List Char) (tokens : List Token) :
    Lexes (s.dropWhile isBlank) tokens ↔ Lexes s tokens := by
  cases s with
  | nil => rfl
  | cons c rest =>
    by_cases hc : isBlank c = true
    · have hs : start c rest = some (none, (rest.takeWhile isBlank).length) :=
        start_iff.mpr (.blank hc)
      have hdrop : (c :: rest).dropWhile isBlank = rest.drop (rest.takeWhile isBlank).length := by
        rw [drop_takeWhile, List.dropWhile_cons_of_pos hc]
      rw [hdrop]
      constructor
      · exact lexes_blank hs
      · intro h
        have h0 := h 0
        unfold scan at h0
        rw [hs] at h0
        simp only at h0
        split at h0
        · cases h0
        · rename_i ts hts
          cases h0
          exact lexes_of_scan hts
    · rw [List.dropWhile_cons_of_neg hc]

/-- A space in front of a text does not count. -/
theorem lexes_space {x : List Char} {tokens : List Token} (hr : Lexes x tokens) :
    Lexes (' ' :: x) tokens := by
  rw [← lexes_dropWhile_iff, List.dropWhile_cons_of_pos (by decide), lexes_dropWhile_iff]
  exact hr

def Writes (s : String) (tokens : List Token) : Prop :=
  ∀ x more, Apart x → Lexes x more → Lexes (s.toList ++ x) (tokens ++ more)

def opening : Token := ⟨.mark, "("⟩

def closing : Token := ⟨.mark, ")"⟩

def comma : Token := ⟨.mark, ","⟩

theorem Writes.lexes {s : String} {tokens : List Token} (h : Writes s tokens) :
    Lexes s.toList tokens := by
  simpa using h [] [] Apart.nil lexes_nil

theorem Whole.writes {t : Token} (ht : t.Whole) : Writes t.text [t] := by
  intro x more hx hr
  exact lexes_token ht hx hr

theorem writes_empty : Writes "" [] := by
  intro x more hx hr
  simpa using hr

/-- Two texts with a space between them. -/
theorem Writes.space {a b : String} {as bs : List Token} (ha : Writes a as) (hb : Writes b bs) :
    Writes (a ++ " " ++ b) (as ++ bs) := by
  intro x more hx hr
  have h := ha (' ' :: (b.toList ++ x)) (bs ++ more) (Apart.cons (by decide) _)
    (lexes_space (hb x more hx hr))
  simpa using h

/-- Two texts with a comma and a space between them. -/
theorem Writes.comma {a b : String} {as bs : List Token} (ha : Writes a as) (hb : Writes b bs) :
    Writes (a ++ ", " ++ b) (as ++ comma :: bs) := by
  intro x more hx hr
  have h := ha (',' :: ' ' :: (b.toList ++ x)) (Token.comma :: (bs ++ more))
    (Apart.cons (by decide) _) (lexes_mark (by decide) (lexes_space (hb x more hx hr)))
  simpa using h

/-- A text and a closing parenthesis. -/
theorem Writes.close {a : String} {as : List Token} (ha : Writes a as) :
    Writes (a ++ ")") (as ++ [closing]) := by
  intro x more hx hr
  have h := ha (')' :: x) (closing :: more) (Apart.cons (by decide) _) (lexes_mark (by decide) hr)
  simpa using h

/-- An opening parenthesis and a text. -/
theorem Writes.after_opening {a : String} {as : List Token} (ha : Writes a as) :
    Writes ("(" ++ a) (opening :: as) := by
  intro x more hx hr
  have h := lexes_mark (c := '(') (by decide) (ha x more hx hr)
  simpa [opening] using h

/-- A text before one that begins with a mark. -/
theorem Writes.before_mark {a b : String} {as bs : List Token} (ha : Writes a as) (hb : Writes b bs)
    {c : Char} (hc : separates c = true) {rest : List Char} (hbegin : b.toList = c :: rest) :
    Writes (a ++ b) (as ++ bs) := by
  intro x more hx hr
  have hapart : Apart (b.toList ++ x) := by
    rw [hbegin]
    exact Apart.cons hc _
  have h := ha (b.toList ++ x) (bs ++ more) hapart (hb x more hx hr)
  simpa using h

def word (w : String) : Token :=
  ⟨.name, w⟩

@[simp]
theorem word_text (w : String) : (word w).text = w :=
  rfl

def isIdent (w : String) : Bool :=
  match w.toList with
  | c :: rest => isIdentFirst c && rest.all isIdentRest
  | [] => false

/-- What holds of every ASCII character, one by one. -/
theorem of_ascii {p : Char → Bool} (h : ∀ n < 128, p (Char.ofNat n) = true) {c : Char}
    (hc : c.toNat < 128) : p c = true := by
  have hp := h c.toNat hc
  rwa [Char.ofNat_toNat] at hp

theorem toNat_lt_of_isUpper {c : Char} (hc : c.isUpper = true) : c.toNat < 128 := by
  have hbounds : c.val ≥ 'A'.val ∧ c.val ≤ 'Z'.val := of_decide_eq_true hc
  exact Nat.lt_of_le_of_lt (UInt32.le_iff_toNat_le.mp hbounds.2) (by decide)

theorem toNat_lt_of_isLower {c : Char} (hc : c.isLower = true) : c.toNat < 128 := by
  have hbounds : (decide (c.val ≥ 'a'.val) && decide (c.val ≤ 'z'.val)) = true := hc
  rw [Bool.and_eq_true, decide_eq_true_eq, decide_eq_true_eq] at hbounds
  exact Nat.lt_of_le_of_lt (UInt32.le_iff_toNat_le.mp hbounds.2) (by decide)

theorem toNat_lt_of_isAlpha {c : Char} (hc : c.isAlpha = true) : c.toNat < 128 := by
  have hcase : (c.isUpper || c.isLower) = true := hc
  rcases Bool.or_eq_true_iff.mp hcase with hc | hc
  · exact toNat_lt_of_isUpper hc
  · exact toNat_lt_of_isLower hc

theorem toNat_lt_of_isDigit {c : Char} (hc : c.isDigit = true) : c.toNat < 128 := by
  simp only [Char.isDigit, Bool.and_eq_true, decide_eq_true_eq] at hc
  exact Nat.lt_of_le_of_lt (UInt32.le_iff_toNat_le.mp hc.2) (by decide)

theorem toNat_lt_of_identRest {c : Char} (hc : isIdentRest c = true) : c.toNat < 128 := by
  simp only [isIdentRest, Char.isAlphanum, Bool.or_eq_true, beq_iff_eq] at hc
  rcases hc with (hc | hc) | rfl
  · exact toNat_lt_of_isAlpha hc
  · exact toNat_lt_of_isDigit hc
  · decide

theorem toNat_lt_of_identFirst {c : Char} (hc : isIdentFirst c = true) : c.toNat < 128 := by
  simp only [isIdentFirst, Bool.or_eq_true, beq_iff_eq] at hc
  rcases hc with hc | rfl
  · exact toNat_lt_of_isAlpha hc
  · decide

/-- A character that begins an identifier begins no token of another kind. -/
theorem start_of_identFirst {c : Char} (hc : isIdentFirst c = true) (rest : List Char) :
    start c rest = (nameLength (c :: rest)).map fun n => (some .name, n - 1) := by
  have hother : (!isIdentFirst c || (!isBlank c && !isDecimal c &&
      c != '\x27' && c != '-' && c != ':')) = true :=
    of_ascii (p := fun c => !isIdentFirst c || (!isBlank c && !isDecimal c &&
      c != '\x27' && c != '-' && c != ':')) (by decide) (toNat_lt_of_identFirst hc)
  simp only [hc, Bool.not_true, Bool.false_or, Bool.and_eq_true, Bool.not_eq_true',
    bne_iff_ne] at hother
  obtain ⟨⟨⟨⟨hblank, hdigit⟩, hquote⟩, hsign⟩, hcolon⟩ := hother
  simp [start, hblank, hdigit, hquote, hsign, hcolon, hc]

/-- An identifier is a whole token. -/
theorem whole_word {w : String} (hw : isIdent w = true) : (word w).Whole := by
  unfold isIdent at hw
  split at hw
  · rename_i c rest heq
    rw [Bool.and_eq_true, List.all_eq_true] at hw
    have hrun := takeWhile_append_stop rest (x := []) hw.2 (by simp)
    have hnone : dottedRest [] = ([], []) := dottedRest_eq_nil (by simp)
    rw [List.append_nil] at hrun
    have hname : nameLength (c :: rest) = some (rest.length + 1) := by
      simp [nameLength, dotted, hw.1, hrun.1, hrun.2, hnone, countLength]
    refine ⟨c, rest, ?_, ?_⟩
    · rw [← heq, String.ofList_toList]
      rfl
    · rw [start_of_identFirst hw.1, hname]
      rfl
  · cases hw

theorem upper_eq {t : Token} {u : String} (h : t.text.toList.map Char.toUpper = u.toList) :
    t.upper = u := by
  apply String.toList_injective
  rw [← h]
  exact String.toList_map

theorem upper_word {w u : String} (h : w.toList.map Char.toUpper = u.toList) :
    (word w).upper = u :=
  upper_eq h

@[simp]
theorem upper_comma : comma.upper = "," :=
  upper_eq (by decide)

@[simp]
theorem upper_closing : closing.upper = ")" :=
  upper_eq (by decide)

@[simp]
theorem upper_opening : opening.upper = "(" :=
  upper_eq (by decide)

/-- A text is a word of the language: an identifier in capitals. -/
def isReserved (w : String) : Bool :=
  isIdent w && w.toList.map Char.toUpper == w.toList

theorem isIdent_of_isReserved {w : String} (hw : isReserved w = true) : isIdent w = true := by
  rw [isReserved, Bool.and_eq_true] at hw
  exact hw.1

theorem upper_reserved {w : String} (hw : isReserved w = true) : (word w).upper = w := by
  simp only [isReserved, Bool.and_eq_true, beq_iff_eq] at hw
  exact upper_word hw.2

theorem isWord_reserved {w : String} (hw : isReserved w = true) (words : List String) :
    (word w).isWord words = words.contains w := by
  rw [Token.isWord, upper_reserved hw]

theorem upper_of_isWord {t : Token} {w : String} (h : t.isWord [w] = true) : t.upper = w := by
  simpa [Token.isWord] using h

theorem writes_word {w : String} (hw : isIdent w = true) : Writes w [word w] :=
  (whole_word hw).writes

/-- Texts in a row, given how two of them are set side by side. -/
theorem writes_joined {sep : String} {marks : List Token}
    (hsep : ∀ {a b : String} {as bs : List Token}, Writes a as → Writes b bs →
      Writes (a ++ sep ++ b) (as ++ marks ++ bs))
    {ss : List String} {rows : List (List Token)} (h : List.Forall₂ Writes ss rows) :
    Writes (joined sep ss) (marks.intercalate rows) := by
  induction h with
  | nil => exact writes_empty
  | cons hs hrest ih =>
    cases hrest with
    | nil => simpa [joined] using hs
    | cons hs' hrest' =>
      rw [joined, String.intercalate_cons_cons, List.intercalate_cons_cons]
      exact hsep hs ih

theorem writes_joined_comma {ss : List String} {rows : List (List Token)}
    (h : List.Forall₂ Writes ss rows) : Writes (joined ", " ss) ([comma].intercalate rows) := by
  apply writes_joined _ h
  intro a b as bs ha hb
  simpa using ha.comma hb

theorem writes_joined_space {ss : List String} {rows : List (List Token)}
    (h : List.Forall₂ Writes ss rows) : Writes (joined " " ss) rows.flatten := by
  have hrow : List.intercalate [] rows = rows.flatten := by
    induction h with
    | nil => rfl
    | cons hs hrest ih => cases hrest <;> simp_all
  rw [← hrow]
  apply writes_joined _ h
  intro a b as bs ha hb
  simpa using ha.space hb

/-- Conditions with a word between any two. -/
theorem writes_joined_word {w : String} (hw : isIdent w = true) {ss : List String}
    {rows : List (List Token)} (h : List.Forall₂ Writes ss rows) :
    Writes (joined (" " ++ w ++ " ") ss) ([word w].intercalate rows) := by
  apply writes_joined _ h
  intro a b as bs ha hb
  have hab := (ha.space (writes_word hw)).space hb
  simpa [String.append_assoc] using hab

/-- A whole token with the text of a mark is the mark. -/
theorem Whole.eq_mark {t : Token} (ht : t.Whole) {c : Char} (hc : c = ')' ∨ c = ',' ∨ c = '(')
    (h : t.text = .ofList [c]) : t = ⟨.mark, .ofList [c]⟩ := by
  obtain ⟨kind, text⟩ := t
  obtain ⟨d, body, rfl, hs⟩ := ht
  have htext := congrArg String.toList h
  obtain ⟨rfl, rfl⟩ : d = c ∧ body = [] := by simpa using htext
  rw [start_mark hc] at hs
  cases hs
  rfl

/-- Tokens in a row, with spaces between them and at least where one could go on with the next. -/
inductive Laid : List Char → List Token → Prop
  | nil : Laid [] []
  | space {s : List Char} {ts : List Token} (h : Laid s ts) : Laid (' ' :: s) ts
  | token {t : Token} {s : List Char} {ts : List Token} (ht : t.Whole) (hends : t.kind = .mark ∨ Apart s)
    (h : Laid s ts) : Laid (t.text.toList ++ s) (t :: ts)

theorem Whole.exists_mark {t : Token} (ht : t.Whole) (h : t.kind = .mark) :
    ∃ c, (c = ')' ∨ c = ',' ∨ c = '(') ∧ t = ⟨.mark, .ofList [c]⟩ := by
  obtain ⟨kind, text⟩ := t
  obtain ⟨c, body, rfl, hs⟩ := ht
  obtain rfl : kind = .mark := h
  generalize hn : body.length = n at hs
  cases start_iff.mp hs with
  | mark hc =>
    obtain rfl := List.length_eq_zero_iff.mp hn
    exact ⟨c, by tauto, rfl⟩

/-- Tokens that are laid out are read again. -/
theorem Laid.lexes {s x : List Char} {ts more : List Token} (h : Laid s ts) (hx : Apart x)
    (hr : Lexes x more) : Lexes (s ++ x) (ts ++ more) := by
  induction h with
  | nil => exact hr
  | space _ ih => exact lexes_space ih
  | @token t s ts ht hends _ ih =>
    rw [List.append_assoc]
    rcases hends with hmark | hs
    · obtain ⟨c, hc, rfl⟩ := ht.exists_mark hmark
      simpa using lexes_mark hc ih
    · exact lexes_token ht (hs.append hx) ih

theorem Laid.writes {s : String} {ts : List Token} (h : Laid s.toList ts) : Writes s ts :=
  fun _ _ hx hr => h.lexes hx hr

/-- What follows a token in a row is laid out, and does not go on with the token. -/
theorem laid_textAfter {previous : Token} (hp : previous.Whole) {ts : List Token}
    (h : ∀ t ∈ ts, t.Whole) : Laid (textAfter previous ts).toList ts ∧
      (previous.kind = .mark ∨ Apart (textAfter previous ts).toList) := by
  induction ts generalizing previous with
  | nil => exact ⟨.nil, .inr .nil⟩
  | cons t rest ih =>
    have ht := h t (by simp)
    obtain ⟨hrest, hends⟩ := ih ht (fun u hu => h u (by simp [hu]))
    have hlaid := Laid.token ht hends hrest
    rw [textAfter, String.toList_append]
    by_cases hjoin : joinsTo previous t = true
    · -- Without a space between them, one of the two is a mark.
      rw [if_pos hjoin]
      refine ⟨hlaid, ?_⟩
      simp only [joinsTo, Bool.or_eq_true, Bool.and_eq_true, beq_iff_eq] at hjoin
      rcases hjoin with ((hclose | hcomma) | hopen) | ⟨hopen, -⟩
      · exact .inr (hclose ▸ Apart.cons (c := ')') (by decide) _)
      · exact .inr (hcomma ▸ Apart.cons (c := ',') (by decide) _)
      · have hmark := hp.eq_mark (c := '(') (by decide) hopen
        exact .inl (by rw [hmark])
      · exact .inr (hopen ▸ Apart.cons (c := '(') (by decide) _)
    · rw [if_neg hjoin, String.toList_append]
      exact ⟨.space hlaid, .inr (Apart.cons (by decide) _)⟩

theorem laid_rowText {ts : List Token} (h : ∀ t ∈ ts, t.Whole) : Laid (rowText ts).toList ts := by
  cases ts with
  | nil => exact .nil
  | cons t rest =>
    obtain ⟨ht, hrest⟩ := List.forall_mem_cons.mp h
    obtain ⟨hlaid, hends⟩ := laid_textAfter ht hrest
    rw [rowText, String.toList_append]
    exact .token ht hends hlaid

/-- Tokens that are written in a row are read again. -/
theorem writes_rowText {ts : List Token} (h : ∀ t ∈ ts, t.Whole) : Writes (rowText ts) ts :=
  (laid_rowText h).writes

end Soql.Token
