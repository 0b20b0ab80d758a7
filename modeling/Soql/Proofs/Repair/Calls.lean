import Soql.Proofs.Query.Mentions
import Soql.Proofs.Query.Neat
import Soql.Proofs.Repair.Relabel
import Soql.Proofs.Text.Sheltered

namespace Soql.Text

open Token

structure Mention where
  path : List Char
  called : Bool
  deriving DecidableEq, Repr

def mentions (s : List Char) : List Mention :=
  match s with
  | [] => []
  | c :: rest =>
    match found : dotted (c :: rest) with
    | some (path, after) =>
      have := length_dotted_lt found
      ⟨path, opensCall after⟩ :: mentions after
    | none => mentions rest
termination_by s.length
decreasing_by
  · assumption
  · exact Nat.lt_succ_self _

@[simp]
theorem mentions_nil : mentions [] = [] := by
  rw [mentions]

theorem mentions_cons {c : Char} (hc : isIdentFirst c = false) (s : List Char) :
    mentions (c :: s) = mentions s := by
  rw [mentions]
  split
  · rename_i hfound
    rw [dotted_of_not_identFirst hc] at hfound
    cases hfound
  · rfl

theorem mentions_of_none {s : List Char} (hs : ∀ c ∈ s, isIdentFirst c = false) : mentions s = [] := by
  induction s with
  | nil => exact mentions_nil
  | cons c s ih =>
    obtain ⟨hc, hs⟩ := List.forall_mem_cons.mp hs
    rw [mentions_cons hc, ih hs]

theorem mentions_of_dotted {s path after : List Char} (h : dotted s = some (path, after)) :
    mentions s = ⟨path, opensCall after⟩ :: mentions after := by
  cases s with
  | nil => cases h
  | cons c s =>
    rw [mentions]
    split
    · rename_i hfound
      rw [h] at hfound
      cases hfound
      rfl
    · rename_i hnone
      rw [h] at hnone
      cases hnone

/-- A path in front, or a character that begins none. -/
theorem dotted_cases (c : Char) (s : List Char) :
    (∃ path after, dotted (c :: s) = some (path, after)) ∨ isIdentFirst c = false := by
  by_cases hc : isIdentFirst c = true
  · simp [dotted, hc]
  · exact .inr (by simpa using hc)

/-- The paths that count as such are those that are no names of calls. -/
theorem dottedPaths_eq (s : List Char) :
    dottedPaths s = ((mentions s).filter (!·.called)).map (·.path) := by
  induction hn : s.length using Nat.strong_induction_on generalizing s with
  | _ n ih =>
    cases s with
    | nil => simp [dottedPaths]
    | cons c s =>
      rcases dotted_cases c s with ⟨path, after, hfound⟩ | hc
      · have hrest := ih after.length (hn ▸ length_dotted_lt hfound) after rfl
        rw [dottedPaths_of_dotted hfound, mentions_of_dotted hfound, hrest]
        cases opensCall after <;> simp
      · rw [dottedPaths_cons hc, mentions_cons hc]
        exact ih s.length (by simp [← hn]) s rfl

def callSign (called : Bool) : List Char :=
  if called then ['('] else []

theorem apart_callSign (called : Bool) : Apart (callSign called) := by
  cases called with
  | true => exact .cons (by decide) []
  | false => exact .nil

theorem identFirst_of_callSign {called : Bool} {c : Char} (hc : c ∈ callSign called) : isIdentFirst c = false := by
  cases called with
  | true =>
    rw [List.mem_singleton.mp hc]
    decide
  | false => cases hc

theorem opensCall_append (s x : List Char) : opensCall (s ++ x) = opensCall (s ++ callSign (opensCall x)) := by
  induction s with
  | nil =>
    cases hx : opensCall x with
    | true => exact hx.trans (by decide)
    | false => exact hx
  | cons c s ih =>
    by_cases hc : isBlank c = true
    · simpa [opensCall, hc] using ih
    · simp [opensCall, hc]

/-- The mentions of a text in front of one that is apart: what follows counts for it only as a call does. -/
theorem mentions_append (s : List Char) {x : List Char} (hx : Apart x) :
    mentions (s ++ x) = mentions (s ++ callSign (opensCall x)) ++ mentions x := by
  induction hn : s.length using Nat.strong_induction_on generalizing s with
  | _ n ih =>
    cases s with
    | nil =>
      have hnone : mentions (callSign (opensCall x)) = [] := mentions_of_none fun c => identFirst_of_callSign
      rw [List.nil_append, List.nil_append, hnone, List.nil_append]
    | cons c s =>
      rcases dotted_cases c s with ⟨path, after, hfound⟩ | hc
      · have hrest := ih after.length (hn ▸ length_dotted_lt hfound) after rfl
        rw [mentions_of_dotted (dotted_append_apart hfound hx),
          mentions_of_dotted (dotted_append_apart hfound (apart_callSign _)), hrest, ← opensCall_append]
        rfl
      · rw [List.cons_append, List.cons_append, mentions_cons hc, mentions_cons hc]
        exact ih s.length (by simp [← hn]) s rfl

structure TokenEdit (edit : List Char → List Char) : Prop where
  nil : edit [] = []
  separator : ∀ {c : Char}, separates c = true → ∀ s, edit (c :: s) = c :: edit s
  apart : ∀ {x : List Char}, Apart x → ∀ s, edit (s ++ x) = edit s ++ edit x
  literal : ∀ {body : List Char}, Body body →
    edit ('\x27' :: (body ++ ['\x27'])) = '\x27' :: (edit body ++ ['\x27']) ∧ Body (edit body)
  other : ∀ {t : Token}, t.Whole → t.kind ≠ .literal → t.kind ≠ .mark →
    (∀ c ∈ edit t.text.toList, c ≠ '\x27' ∧ c ≠ '\x22') ∧
      ∃ c body, edit t.text.toList = c :: body ∧ isBlank c = false ∧ c ≠ '('

theorem TokenEdit.stays_apart {edit : List Char → List Char} (h : TokenEdit edit) {s : List Char} (hs : Apart s) :
    Apart (edit s) := by
  cases s with
  | nil =>
    rw [h.nil]
    exact .nil
  | cons c s =>
    rw [h.separator (hs c rfl)]
    exact .cons (hs c rfl) _

end Soql.Text

namespace Soql.Token

open Text

def opensNext (ts : List Token) : Bool :=
  (ts.dropWhile (·.kind == .literal)).head?.any (·.isMark "(")

/-- A token that is no mark begins neither with a blank nor with a parenthesis. -/
theorem Whole.begins {t : Token} (ht : t.Whole) (hmark : t.kind ≠ .mark) :
    ∃ c body, t.text.toList = c :: body ∧ isBlank c = false ∧ c ≠ '(' := by
  obtain ⟨kind, text⟩ := t
  obtain ⟨c, body, rfl, hs⟩ := ht
  refine ⟨c, body, String.toList_ofList, not_blank_of_start hs, ?_⟩
  rintro rfl
  rw [start_mark (by decide)] at hs
  obtain ⟨hkind, -⟩ : TokenKind.mark = kind ∧ _ := by simpa using hs
  exact hmark hkind.symm

section Edited

variable {edit : List Char → List Char} (h : TokenEdit edit)

def baredBy (edit : List Char → List Char) (t : Token) : List Char :=
  if t.kind == .literal then [' '] else edit t.text.toList

def rowMentions (edit : List Char → List Char) : List Token → List Mention
  | [] => []
  | t :: ts => mentions (baredBy edit t ++ callSign (opensNext ts)) ++ rowMentions edit ts

include h

theorem edit_mark (c : Char) (hc : c = ')' ∨ c = ',' ∨ c = '(') (s : List Char) : edit (c :: s) = c :: edit s := by
  rcases hc with rfl | rfl | rfl <;> exact h.separator (by decide) s

theorem edit_token {t : Token} (ht : t.Whole) {s : List Char} (hends : t.kind = .mark ∨ Apart s) :
    edit (t.text.toList ++ s) = edit t.text.toList ++ edit s := by
  rcases hends with hmark | hs
  · obtain ⟨c, hc, rfl⟩ := ht.exists_mark hmark
    rw [String.toList_ofList, List.singleton_append, edit_mark h c hc, edit_mark h c hc, h.nil]
    rfl
  · exact h.apart hs _

/-- The literals of an edited token are taken out as they are of the token. -/
theorem withoutLiterals_edit {t : Token} (ht : t.Whole) (x : List Char) :
    withoutLiterals (edit t.text.toList ++ x) = baredBy edit t ++ withoutLiterals x := by
  by_cases hliteral : t.kind = .literal
  · obtain ⟨kind, text⟩ := t
    obtain rfl : kind = .literal := hliteral
    obtain ⟨body, htext, hbody⟩ := ht.body
    obtain ⟨hedit, hedited⟩ := h.literal (body_of_literalBody hbody)
    have hwhole : Whole ⟨.literal, .ofList (edit text.toList)⟩ := by
      refine whole_of_body ?_ (hedited.literalBody [])
      rw [String.toList_ofList, htext, hedit]
    have hbared := hwhole.withoutLiterals x
    rwa [String.toList_ofList] at hbared
  · rw [baredBy, if_neg (by simpa using hliteral)]
    by_cases hmark : t.kind = .mark
    · obtain ⟨c, hc, rfl⟩ := ht.exists_mark hmark
      rw [String.toList_ofList, edit_mark h c hc, h.nil]
      apply withoutLiterals_append
      rcases hc with rfl | rfl | rfl <;> simp
    · exact withoutLiterals_append (h.other ht hliteral hmark).1 x

/-- A parenthesis is next in an edited text just when one is next among its tokens. -/
theorem Laid.opensCall_edit {s : List Char} {ts : List Token} (hs : Laid s ts) :
    opensCall (withoutLiterals (edit s)) = opensNext ts := by
  induction hs with
  | nil => simp [h.nil, withoutLiterals, opensCall, opensNext]
  | space _ ih =>
    rw [h.separator (by decide), withoutLiterals, if_neg (by decide), opensCall,
      List.dropWhile_cons_of_pos (by decide)]
    exact ih
  | @token t s ts ht hends _ ih =>
    rw [edit_token h ht hends, withoutLiterals_edit h ht]
    by_cases hliteral : t.kind = .literal
    · rw [baredBy, if_pos (by simp [hliteral]), opensCall, List.singleton_append,
        List.dropWhile_cons_of_pos (by decide), opensNext, List.dropWhile_cons_of_pos (by simp [hliteral])]
      exact ih
    · rw [baredBy, if_neg (by simpa using hliteral), opensNext, List.dropWhile_cons_of_neg (by simpa using hliteral)]
      by_cases hmark : t.kind = .mark
      · obtain ⟨c, hc, rfl⟩ := ht.exists_mark hmark
        rw [String.toList_ofList, edit_mark h c hc, h.nil]
        rcases hc with rfl | rfl | rfl <;> rfl
      · obtain ⟨c, body, hedit, hblank, hopen⟩ := (h.other ht hliteral hmark).2
        have hfirst : (c == '(') = false := by simpa using hopen
        have hkind : (t.kind == .mark) = false := by simpa using hmark
        rw [hedit, opensCall, List.cons_append, List.dropWhile_cons_of_neg (by simp [hblank])]
        simp [isMark, hfirst, hkind]

/-- The mentions of an edited text are those of its tokens. -/
theorem Laid.mentions_edit {s : List Char} {ts : List Token} (hs : Laid s ts) :
    mentions (withoutLiterals (edit s)) = rowMentions edit ts := by
  induction hs with
  | nil => rw [h.nil, withoutLiterals, mentions_nil, rowMentions]
  | space _ ih =>
    rw [h.separator (by decide), withoutLiterals, if_neg (by decide), mentions_cons (by decide), ih]
  | @token t s ts ht hends hs ih =>
    rw [edit_token h ht hends, withoutLiterals_edit h ht, rowMentions, ← ih]
    -- A mark holds no path; any other token is apart from what follows, which can only make its path a call.
    rcases hends with hmark | hapart
    · obtain ⟨c, hc, rfl⟩ := ht.exists_mark hmark
      have hfirst : isIdentFirst c = false := by rcases hc with rfl | rfl | rfl <;> decide
      have hbared : baredBy edit ⟨.mark, .ofList [c]⟩ = [c] := by
        rw [baredBy, if_neg (by simp), String.toList_ofList, edit_mark h c hc, h.nil]
      have hnone : mentions (callSign (opensNext ts)) = [] := mentions_of_none fun c => identFirst_of_callSign
      rw [hbared, List.singleton_append, List.singleton_append, mentions_cons hfirst, mentions_cons hfirst, hnone,
        List.nil_append]
    · rw [mentions_append _ (apart_withoutLiterals (h.stays_apart hapart)), hs.opensCall_edit h]

/-- The literals of an edited text are edited one by one. -/
theorem Laid.literalBodies_edit {s : List Char} {ts : List Token} (hs : Laid s ts) :
    literalBodies (edit s) = (literalBodies s).map edit := by
  induction hs with
  | nil => simp [h.nil, literalBodies]
  | space _ ih =>
    rw [h.separator (by decide), literalBodies, if_neg (by decide), literalBodies, if_neg (by decide), ih]
  | @token t s ts ht hends _ ih =>
    rw [edit_token h ht hends]
    by_cases hliteral : t.kind = .literal
    · obtain ⟨kind, text⟩ := t
      obtain rfl : kind = .literal := hliteral
      obtain ⟨body, htext, hbody⟩ := ht.body
      have hbody := body_of_literalBody hbody
      obtain ⟨hedit, hedited⟩ := h.literal hbody
      have hread (b : List Char) (hb : Body b) (x : List Char) :
          literalBodies ('\x27' :: (b ++ ['\x27']) ++ x) = b :: literalBodies x := by
        rw [List.cons_append, List.append_assoc]
        exact Query.literalBodies_literal (hb.literalBody x)
      rw [htext, hedit, hread _ hedited, hread _ hbody, ih, List.map_cons]
    · have hplain {x : List Char} (hx : ∀ c ∈ x, c ≠ '\x27' ∧ c ≠ '\x22') : '\x27' ∉ x :=
        fun hmem => (hx _ hmem).1 rfl
      have hedited : ∀ c ∈ edit t.text.toList, c ≠ '\x27' ∧ c ≠ '\x22' := by
        by_cases hmark : t.kind = .mark
        · obtain ⟨c, hc, rfl⟩ := ht.exists_mark hmark
          rw [String.toList_ofList, edit_mark h c hc, h.nil]
          rcases hc with rfl | rfl | rfl <;> simp
        · exact (h.other ht hliteral hmark).1
      rw [Query.literalBodies_free (hplain hedited), Query.literalBodies_free (hplain (ht.unquoted hliteral)), ih]

end Edited

end Soql.Token

namespace Soql.Text

open Token

theorem tokenEdit_id : TokenEdit id where
  nil := rfl
  separator := fun _ _ => rfl
  apart := fun _ _ => rfl
  literal := fun hbody => ⟨rfl, hbody⟩
  other := fun ht hliteral hmark => ⟨ht.unquoted hliteral, ht.begins hmark⟩

/-- A run of characters that join a path neither ends a literal nor escapes anything. -/
theorem body_run_iff {r s : List Char} (hr : ∀ c ∈ r, endsRun c = false) : Body (r ++ s) ↔ Body s := by
  induction r with
  | nil => rfl
  | cons c r ih =>
    obtain ⟨hc, hr⟩ := List.forall_mem_cons.mp hr
    have hquote : c ≠ '\x27' := by
      rintro rfl
      revert hc
      decide
    have hback : c ≠ '\\' := by
      rintro rfl
      revert hc
      decide
    have hrest := ih hr
    rw [List.cons_append]
    generalize r ++ s = x at hrest ⊢
    constructor
    · intro h
      cases h with
      | pair => exact absurd rfl hback
      | char _ _ h => exact hrest.mp h
    · intro h
      exact .char hquote hback (hrest.mpr h)

theorem body_escaped_run_iff {r s : List Char} (hne : r ≠ []) (hr : ∀ c ∈ r, endsRun c = false) :
    Body ('\\' :: (r ++ s)) ↔ Body s := by
  obtain ⟨c, r, rfl⟩ := List.exists_cons_of_ne_nil hne
  obtain ⟨hc, hr⟩ := List.forall_mem_cons.mp hr
  have hline : c ≠ '\n' := by
    rintro rfl
    revert hc
    decide
  rw [List.cons_append]
  constructor
  · intro h
    cases h with
    | pair _ h => exact (body_run_iff hr).mp h
    | char _ hback => exact absurd rfl hback
  · intro h
    exact .pair hline ((body_run_iff hr).mpr h)

section Exchange

variable {path new : List Char} (hpath : PathText path) (hnew : PathText new)

include hpath

theorem renameFrom_apart {fill : List Char → List Char} {x : List Char} (hx : Apart x) (s : List Char) :
    renameFrom path fill 0 true (s ++ x) =
      renameFrom path fill 0 true s ++ renameFrom path fill 0 true x := by
  cases x with
  | nil => rw [renameFrom_nil hpath, List.append_nil, List.append_nil]
  | cons c x =>
    have hparts : parts c = true := by
      rcases eq_of_separates (hx c rfl) with rfl | rfl | rfl | rfl <;> decide
    have hends : endsRun c = true := by rw [endsRun, joinsPath_of_parts hparts, Bool.not_false]
    rw [renameFrom_append hpath hparts s x (Nat.zero_le _), renameFrom_sep hpath hends]

include hnew

/-- The body of a literal stays one: runs of a path neither end it nor are they ended by what is escaped. The
induction is on the runs, behind a backslash as well as elsewhere. -/
theorem body_renameFrom {s : List Char} (hs : Body s) : Body (renameFrom path (fun _ => new) 0 true s) := by
  suffices hboth : (Body s → Body (renameFrom path (fun _ => new) 0 true s)) ∧
      (Body ('\\' :: s) → Body ('\\' :: renameFrom path (fun _ => new) 0 true s)) from hboth.1 hs
  clear hs
  -- A backslash takes what follows it along, so that both forms go through the induction together.
  induction s using runs_induction (p := endsRun) with
  | nil =>
    rw [renameFrom_nil hpath]
    exact ⟨id, id⟩
  | sep c s hc ih =>
    rw [renameFrom_sep hpath hc]
    constructor
    · intro h
      cases h with
      | pair hline h => exact ih.2 (.pair hline h)
      | char hquote hback h => exact .char hquote hback (ih.1 h)
    · intro h
      cases h with
      | pair hline h => exact .pair hline (ih.1 h)
      | char _ hback => exact absurd rfl hback
  | run r s hne hr hs ih =>
    obtain ⟨hne', hr'⟩ := exchangeRun_run (e := (path, new)) hnew hne hr
    rw [renameFrom_run hpath hne hr hs, body_run_iff hr, body_escaped_run_iff hne hr, body_run_iff hr',
      body_escaped_run_iff hne' hr']
    exact ⟨ih.1, ih.1⟩

end Exchange

def Mention.exchange (path new : List Char) (m : Mention) : Mention :=
  { m with path := exchangeRun path new m.path }

structure Spot where
  mention : Mention
  dated : Bool
  deriving DecidableEq, Repr

def Spot.exchanged (path new : List Char) (spot : Spot) : Mention :=
  if spot.dated then spot.mention else spot.mention.exchange path new

@[simp]
theorem called_exchanged (path new : List Char) (spot : Spot) :
    (spot.exchanged path new).called = spot.mention.called := by
  unfold Spot.exchanged
  split <;> rfl

end Soql.Text

namespace Soql.Token

open Text

def spots : List Token → List Spot
  | [] => []
  | t :: ts => (mentions (t.bared ++ callSign (opensNext ts))).map (⟨·, t.kind == .date⟩) ++ spots ts

theorem rowMentions_id (ts : List Token) : rowMentions id ts = (spots ts).map (·.mention) := by
  induction ts with
  | nil => rfl
  | cons t ts ih =>
    rw [rowMentions, spots, List.map_append, List.map_map, ih]
    exact congrArg (· ++ _) (List.map_id _).symm

/-- No path begins in a number, an operator or a mark. -/
theorem Whole.dull {t : Token} (ht : t.Whole) (hkind : t.kind = .number ∨ t.kind = .operator ∨ t.kind = .mark) :
    ∀ c ∈ t.text.toList, Dull c := by
  obtain ⟨kind, text⟩ := t
  obtain ⟨c, body, rfl, hs⟩ := ht
  rw [String.toList_ofList]
  generalize hn : body.length = n at hs
  cases start_iff.mp hs with
  | literal | date | bind | name => simp at hkind
  | negative hc hm =>
    have hall := dull_number hm
    rw [← hn, List.take_length] at hall
    refine List.forall_mem_cons.mpr ⟨?_, hall⟩
    rw [hc]
    exact dull_of_quiet (by decide)
  | number hbare hc hdate hm =>
    have hall := dull_number hm
    rwa [List.take_cons (numberLength_le hm).2, ← hn, List.take_length] at hall
  | @long d others hrest hc =>
    obtain rfl : others = [] := by simpa [hrest] using hn
    obtain ⟨hfirst, hsecond⟩ := eq_of_isLongOperator hc
    rw [hrest]
    refine List.forall_mem_cons.mpr ⟨?_, List.forall_mem_singleton.mpr ?_⟩
    · rcases hfirst with rfl | rfl | rfl <;> exact dull_of_quiet (by decide)
    · rcases hsecond with rfl | rfl <;> exact dull_of_quiet (by decide)
  | operator hc hlong =>
    obtain rfl := List.length_eq_zero_iff.mp hn
    refine List.forall_mem_singleton.mpr ?_
    rcases hc with rfl | rfl | rfl <;> exact dull_of_quiet (by decide)
  | mark hc =>
    obtain rfl := List.length_eq_zero_iff.mp hn
    refine List.forall_mem_singleton.mpr ?_
    rcases hc with rfl | rfl | rfl <;> exact dull_of_quiet (by decide)

theorem Whole.sheltered {t : Token} (ht : t.Whole) (hkind : t.kind = .date) : Sheltered true t.text.toList := by
  obtain ⟨kind, text⟩ := t
  obtain ⟨c, body, rfl, hs⟩ := ht
  obtain rfl : kind = .date := hkind
  rw [String.toList_ofList]
  generalize hn : body.length = n at hs
  cases start_iff.mp hs with
  | date hbare hc hm =>
    have hall := sheltered_date hm
    rwa [List.take_cons (dateLength_le hm).2, ← hn, List.take_length] at hall

/-- Where all of a text is a count, digits stand behind its colon. -/
theorem eq_of_markedDigits {after : List Char} (h : markedDigits ':' after = after.length) :
    (∀ c ∈ after, c = ':' ∨ isDecimal c = true) ∧ ∀ c ∈ after.head?, c = ':' := by
  constructor
  · intro c hc
    rw [← List.take_length (l := after), ← h] at hc
    exact mem_markedDigits hc
  · intro c hc
    cases after with
    | nil => cases hc
    | cons d after =>
      obtain rfl : d = c := by simpa using hc
      rw [markedDigits] at h
      split at h
      · rename_i hmark
        exact hmark.1
      · simp at h

/-- A text that is a path, perhaps with a colon in front, and with a count after it or nothing. -/
structure AroundPath (s front path after : List Char) : Prop where
  text : s = front ++ (path ++ after)
  sign : front = [] ∨ front = [':']
  named : isPath (.ofList path) = true
  dull : ∀ c ∈ after, Dull c
  colon : ∀ c ∈ after.head?, c = ':'

/-- A name is a path with a count or nothing after it, and a variable is an identifier with a colon in front. -/
theorem Whole.aroundPath {t : Token} (ht : t.Whole) (hkind : t.kind = .name ∨ t.kind = .bind) :
    ∃ front path after, AroundPath t.text.toList front path after := by
  obtain ⟨kind, text⟩ := t
  obtain ⟨c, body, rfl, hs⟩ := ht
  rw [String.toList_ofList]
  generalize hn : body.length = n at hs
  cases start_iff.mp hs with
  | literal | negative | date | number | long | operator | mark => simp at hkind
  | @bind d others hc hrest hd =>
    have hall : others.takeWhile isIdentRest = others := by
      rw [hrest, List.length_cons, Nat.add_comm] at hn
      exact (List.takeWhile_prefix isIdentRest).eq_of_length (Nat.add_left_cancel hn).symm
    refine ⟨[':'], d :: others, [], ?_, .inr rfl, ?_, by simp, by simp⟩
    · rw [hc, hrest, List.append_nil]
      rfl
    · apply isPath_of_isIdent
      rw [isIdent_iff]
      refine ⟨d, others, String.toList_ofList, hd, ?_⟩
      rw [← hall]
      exact fun e he => List.mem_takeWhile_imp he
  | @name m hbare hdigit hcolon hc hm =>
    -- The name ends where the path and its count do, so that nothing but a count is left behind the path.
    obtain ⟨⟨path, after⟩, hpath, hlength⟩ := Option.map_eq_some_iff.mp hm
    obtain ⟨htext, -⟩ := dotted_append hpath
    have htotal := congrArg List.length htext
    have hpos := (nameLength_le hm).2
    have hcount : markedDigits ':' after = after.length := by
      dsimp only at hlength
      rw [countLength_eq] at hlength
      rw [List.length_append, List.length_cons] at htotal
      omega
    obtain ⟨hall, hcolon⟩ := eq_of_markedDigits hcount
    refine ⟨[], path, after, htext.symm, .inl rfl, isPath_of_dotted hpath, ?_, hcolon⟩
    intro c hc
    rcases hall c hc with rfl | hdecimal
    · exact dull_of_quiet (by decide)
    · exact dull_of_decimal hdecimal

namespace AroundPath

variable {s front path after : List Char} (h : AroundPath s front path after)

include h

/-- The only path in such a text. -/
theorem mentions_eq (called : Bool) :
    mentions (s ++ callSign called) = [⟨path, opensCall (after ++ callSign called)⟩] := by
  have hnone : mentions (after ++ callSign called) = [] := by
    apply mentions_of_none
    intro c hc
    rcases List.mem_append.mp hc with hc | hc
    · exact (h.dull c hc).not_identFirst
    · exact identFirst_of_callSign hc
  have hhead : ∀ c ∈ (after ++ callSign called).head?, isIdentRest c = false ∧ c ≠ '.' := by
    intro c hc
    cases hafter : after with
    | nil =>
      rw [hafter] at hc
      exact ⟨(apart_callSign called).not_ident c hc, (apart_callSign called).ne (by decide) c hc⟩
    | cons d rest =>
      rw [hafter, List.cons_append, List.head?_cons, Option.mem_some_iff] at hc
      rw [← hc, h.colon d (by simp [hafter])]
      decide
  have hwhole := dotted_of_isPath h.named
  rw [String.toList_ofList] at hwhole
  have hfound := dotted_append_stop hwhole (fun c hc => (hhead c hc).1) fun c hc => (hhead c hc).2
  have hpath : mentions (path ++ (after ++ callSign called)) =
      [⟨path, opensCall (after ++ callSign called)⟩] := by
    rw [mentions_of_dotted hfound, hnone]
  rw [h.text, List.append_assoc, List.append_assoc]
  rcases h.sign with rfl | rfl
  · exact hpath
  · rw [List.singleton_append, mentions_cons (by decide), hpath]

theorem begins : ∃ c body, s = c :: body ∧ isBlank c = false ∧ c ≠ '(' := by
  obtain ⟨a, others, hpath, ha⟩ := (pathText_of_isPath h.named).first
  rw [String.toList_ofList] at hpath
  rw [h.text, hpath]
  rcases h.sign with rfl | rfl
  · refine ⟨a, others ++ after, rfl, ?_, ?_⟩
    · rw [← Bool.not_eq_true]
      intro hblank
      rw [identFirst_of_blank hblank] at ha
      cases ha
    · rintro rfl
      exact absurd ha (by decide)
  · exact ⟨':', a :: others ++ after, rfl, by decide, by decide⟩

/-- The exchange takes the path as a whole. -/
theorem exchange {old new : String} (hold : isPath old = true) (hnew : isPath new = true) :
    AroundPath (renameFrom old.toList (fun _ => new.toList) 0 true s) front
      (exchangeRun old.toList new.toList path) after where
  text := by
    have hsource := pathText_of_isPath hold
    have hchars := pathText_of_isPath h.named
    rw [String.toList_ofList] at hchars
    have hne : path ≠ [] := by
      obtain ⟨a, others, heq, -⟩ := hchars.first
      simp [heq]
    have hrun : ∀ c ∈ path, endsRun c = false := by
      intro c hc
      rw [endsRun, joinsPath_of_pathChar (hchars.chars c hc), Bool.not_true]
    have hstops : Stops endsRun after := by
      intro c hc
      rw [h.colon c hc]
      decide
    -- The path is exchanged as a whole or not at all, and behind it nothing is.
    have hpath : renameFrom old.toList (fun _ => new.toList) 0 true (path ++ after) =
        exchangeRun old.toList new.toList path ++ after := by
      rw [renameFrom_run hsource hne hrun hstops, renameFrom_sheltered hsource (sheltered_of_dull h.dull true)]
    rw [h.text]
    rcases h.sign with rfl | rfl
    · exact hpath
    · rw [List.singleton_append, renameFrom_sep hsource (by decide), hpath]
      rfl
  sign := h.sign
  named := by
    unfold exchangeRun
    split
    · rw [String.ofList_toList]
      exact hnew
    · exact h.named
  dull := h.dull
  colon := h.colon

end AroundPath

section Exchange

variable {old new : String} (hold : isPath old = true)

include hold

/-- Outside literals a path is exchanged in names and variables only. -/
theorem renameFrom_unnamed {t : Token} (ht : t.Whole) (hliteral : t.kind ≠ .literal)
    (hnamed : ¬(t.kind = .name ∨ t.kind = .bind)) :
    renameFrom old.toList (fun _ => new.toList) 0 true t.text.toList = t.text.toList := by
  apply renameFrom_sheltered (pathText_of_isPath hold)
  cases hkind : t.kind with
  | literal => exact absurd hkind hliteral
  | date => exact ht.sheltered hkind
  | number => exact sheltered_of_dull (ht.dull (.inl hkind)) true
  | operator => exact sheltered_of_dull (ht.dull (.inr (.inl hkind))) true
  | mark => exact sheltered_of_dull (ht.dull (.inr (.inr hkind))) true
  | name => exact absurd (.inl hkind) hnamed
  | bind => exact absurd (.inr hkind) hnamed

variable (hnew : isPath new = true)

include hnew

theorem tokenEdit_renameFrom : TokenEdit (renameFrom old.toList (fun _ => new.toList) 0 true) where
  nil := renameFrom_nil (pathText_of_isPath hold) true
  separator := by
    intro c hc s
    apply renameFrom_sep (pathText_of_isPath hold)
    rcases eq_of_separates hc with rfl | rfl | rfl | rfl <;> decide
  apart := fun hx s => renameFrom_apart (pathText_of_isPath hold) hx s
  literal := by
    intro body hbody
    have hsource := pathText_of_isPath hold
    refine ⟨?_, body_renameFrom hsource (pathText_of_isPath hnew) hbody⟩
    rw [renameFrom_sep hsource (by decide), renameFrom_append hsource (by decide) body [] (Nat.zero_le _),
      renameFrom_nil hsource]
  other := by
    intro t ht hliteral hmark
    constructor
    -- A quote would have to come from the token or from the new path.
    · intro c hc
      rcases mem_renameFrom hc with hc | hc
      · exact ht.unquoted hliteral c hc
      · have hchar := (pathText_of_isPath hnew).chars c hc
        constructor <;>
        · rintro rfl
          exact absurd hchar (by decide)
    · by_cases hnamed : t.kind = .name ∨ t.kind = .bind
      · obtain ⟨front, path, after, haround⟩ := ht.aroundPath hnamed
        exact (haround.exchange hold hnew).begins
      · rw [renameFrom_unnamed hold ht hliteral hnamed]
        exact ht.begins hmark

/-- What a token mentions when the path is exchanged. -/
theorem mentions_exchange {t : Token} (ht : t.Whole) (called : Bool) :
    mentions (baredBy (renameFrom old.toList (fun _ => new.toList) 0 true) t ++ callSign called) =
      (mentions (t.bared ++ callSign called)).map fun m =>
        (Spot.mk m (t.kind == .date)).exchanged old.toList new.toList := by
  -- Only names and binds hold paths that are exchanged; a date keeps what is read as its mentions.
  by_cases hnamed : t.kind = .name ∨ t.kind = .bind
  · have hliteral : ¬(t.kind == .literal) = true := by rcases hnamed with hkind | hkind <;> simp [hkind]
    have hdate : (t.kind == .date) = false := by rcases hnamed with hkind | hkind <;> simp [hkind]
    obtain ⟨front, path, after, haround⟩ := ht.aroundPath hnamed
    rw [baredBy, bared, if_neg hliteral, if_neg hliteral, haround.mentions_eq,
      (haround.exchange hold hnew).mentions_eq, hdate]
    rfl
  · have hsame : baredBy (renameFrom old.toList (fun _ => new.toList) 0 true) t = t.bared := by
      unfold baredBy bared
      split
      · rfl
      · rename_i hliteral
        exact renameFrom_unnamed hold ht (by simpa using hliteral) hnamed
    rw [hsame]
    by_cases hdate : t.kind = .date
    · rw [hdate]
      exact (List.map_id _).symm
    · -- In what is left there is no path at all.
      have hdull : ∀ c ∈ t.bared, Dull c := by
        unfold bared
        split
        · exact List.forall_mem_singleton.mpr (dull_of_quiet (by decide))
        · rename_i hliteral
          apply ht.dull
          cases hkind : t.kind <;> simp_all
      have hnone : mentions (t.bared ++ callSign called) = [] := by
        apply mentions_of_none
        intro c hc
        rcases List.mem_append.mp hc with hc | hc
        · exact (hdull c hc).not_identFirst
        · exact identFirst_of_callSign hc
      rw [hnone]
      rfl

/-- At each spot the path is exchanged, unless the spot is in a date. -/
theorem rowMentions_exchange {ts : List Token} (hts : ∀ t ∈ ts, t.Whole) :
    rowMentions (renameFrom old.toList (fun _ => new.toList) 0 true) ts =
      (spots ts).map (·.exchanged old.toList new.toList) := by
  induction ts with
  | nil => rfl
  | cons t ts ih =>
    obtain ⟨ht, hts⟩ := List.forall_mem_cons.mp hts
    rw [rowMentions, spots, List.map_append, List.map_map, ih hts, mentions_exchange hold hnew ht]
    rfl

end Exchange

end Soql.Token
