import Soql.Proofs.Query.Reading
import Soql.Query.Render

namespace Soql.Query

open Text Token

def depthPast (depth : Nat) (t : Token) : Nat :=
  if t.isMark "(" then depth + 1 else if t.isMark ")" then depth - 1 else depth

/-- The depth after a row of tokens, unless one of them ends the row outside all parentheses. -/
def walk (ends : Token → Bool) : (depth : Nat) → List Token → Option Nat
  | depth, [] => some depth
  | depth, t :: rest =>
    if depth == 0 && ends t then none else walk ends (depthPast depth t) rest

def endsPart (t : Token) : Bool :=
  t.isMark ")" || t.isMark ","

theorem walk_cons {ends : Token → Bool} {depth : Nat} {t : Token} {ts : List Token} {out : Nat} :
    walk ends depth (t :: ts) = some out ↔
      ¬(depth = 0 ∧ ends t = true) ∧ walk ends (depthPast depth t) ts = some out := by
  simp only [walk, Bool.and_eq_true, beq_iff_eq]
  split
  · rename_i h
    simp [h]
  · rename_i h
    simp [h]

/-- A token within an argument belongs to the first part. -/
theorem argumentParts_inner {depth : Nat} {t : Token} (h : ¬(depth = 0 ∧ endsPart t = true))
    (ts : List Token) : argumentParts depth (t :: ts) =
      (argumentParts (depthPast depth t) ts).map fun (parts, rest) =>
        match parts with
        | [] => ([[t]], rest)
        | part :: others => ((t :: part) :: others, rest) := by
  simp only [endsPart, Bool.or_eq_true, not_and, not_or, Bool.not_eq_true] at h
  have hclose : ¬(t.isMark ")" && depth == 0) = true := by
    intro hends
    rw [Bool.and_eq_true, beq_iff_eq] at hends
    rw [(h hends.2).1] at hends
    cases hends.1
  have hcomma : ¬(t.isMark "," && depth == 0) = true := by
    intro hends
    rw [Bool.and_eq_true, beq_iff_eq] at hends
    rw [(h hends.2).2] at hends
    cases hends.1
  rw [argumentParts, if_neg hclose, if_neg hcomma]
  rfl

/-- An argument in front of the closing parenthesis is the last one. -/
theorem argumentParts_closing {part : List Token} {depth : Nat}
    (h : walk endsPart depth part = some 0) (ts : List Token) :
    argumentParts depth (part ++ closing :: ts) = .ok ([part], ts) := by
  induction part generalizing depth with
  | nil =>
    obtain rfl : depth = 0 := by simpa [walk] using h
    rfl
  | cons t part ih =>
    rw [walk_cons] at h
    rw [List.cons_append, argumentParts_inner h.1, ih h.2]
    rfl

/-- An argument in front of a comma is followed by further ones. -/
theorem argumentParts_comma {part : List Token} {depth : Nat}
    (h : walk endsPart depth part = some 0) (ts : List Token) :
    argumentParts depth (part ++ comma :: ts) =
      (argumentParts 0 ts).map fun (parts, rest) => (part :: parts, rest) := by
  induction part generalizing depth with
  | nil =>
    obtain rfl : depth = 0 := by simpa [walk] using h
    rfl
  | cons t part ih =>
    rw [walk_cons] at h
    rw [List.cons_append, argumentParts_inner h.1, ih h.2]
    cases argumentParts 0 ts <;> rfl

/-- Arguments with commas between them are cut at these commas. -/
theorem argumentParts_row {rows : List (List Token)} (hne : rows ≠ [])
    (h : ∀ row ∈ rows, walk endsPart 0 row = some 0) (ts : List Token) :
    argumentParts 0 ([comma].intercalate rows ++ closing :: ts) = .ok (rows, ts) := by
  induction rows with
  | nil => exact absurd rfl hne
  | cons row rows ih =>
    have hrow := h row (by simp)
    cases rows with
    | nil =>
      rw [List.intercalate_singleton]
      exact argumentParts_closing hrow ts
    | cons row' rows =>
      have hrest := ih (by simp) (fun r hr => h r (by simp [hr]))
      rw [List.intercalate_cons_cons, List.append_assoc, List.append_assoc, List.singleton_append,
        argumentParts_comma hrow, hrest]
      rfl

/-- Arguments are cut at the commas outside all parentheses, and nothing else is lost. -/
theorem argumentParts_cut {ts rest : List Token} {depth : Nat} {parts : List (List Token)}
    (h : argumentParts depth ts = .ok (parts, rest)) :
    ∃ part others, parts = part :: others ∧ ts = [comma].intercalate (part :: others) ++ closing :: rest ∧
      walk endsPart depth part = some 0 ∧ ∀ row ∈ others, walk endsPart 0 row = some 0 := by
  induction ts generalizing depth parts rest with
  | nil => cases h
  | cons t ts ih =>
    by_cases hend : depth = 0 ∧ endsPart t = true
    · obtain ⟨rfl, hend⟩ := hend
      simp only [endsPart, Bool.or_eq_true, isMark_iff] at hend
      rcases hend with rfl | rfl
      -- A parenthesis closes the last argument.
      · cases h
        exact ⟨[], [], rfl, rfl, rfl, by simp⟩
      · -- A comma closes an argument, and the next one begins.
        simp only [argumentParts] at h
        rw [if_neg (by decide), if_pos (by decide)] at h
        cases hrec : argumentParts 0 ts with
        | error e =>
          rw [hrec] at h
          cases h
        | ok found =>
          obtain ⟨found, after⟩ := found
          obtain ⟨part, others, rfl, rfl, hwalk, hothers⟩ := ih hrec
          rw [hrec] at h
          cases h
          exact ⟨[], part :: others, rfl, by rw [List.intercalate_cons_cons]; rfl, rfl,
            List.forall_mem_cons.mpr ⟨hwalk, hothers⟩⟩
    · rw [argumentParts_inner hend] at h
      cases hrec : argumentParts (depthPast depth t) ts with
      | error e =>
        rw [hrec] at h
        cases h
      | ok found =>
        obtain ⟨found, after⟩ := found
        obtain ⟨part, others, rfl, rfl, hwalk, hothers⟩ := ih hrec
        rw [hrec] at h
        cases h
        exact ⟨t :: part, others, rfl, by rw [List.intercalate_cons_cons_left]; rfl,
          walk_cons.mpr ⟨hend, hwalk⟩, hothers⟩

/-- The arguments of a call are the parts between its parentheses; an empty one at the end is none. -/
theorem readArguments_cut {ts rest : List Token} {args : List String}
    (h : readArguments.run ts = .ok (args, rest)) :
    ∃ parts, parts ≠ [] ∧ ts = opening :: ([comma].intercalate parts ++ closing :: rest) ∧
      (∀ row ∈ parts, walk endsPart 0 row = some 0) ∧
      args = (if parts.getLast?.any List.isEmpty then parts.dropLast else parts).map rowText := by
  unfold readArguments at h
  simp only [run_bind_ok, run_takeMark_ok, run_get_ok, run_set_ok, run_pure_ok] at h
  obtain ⟨_, inside, rfl, _, _, ⟨rfl, rfl⟩, ⟨parts, after⟩, mid, hparts, h⟩ := h
  have hcut : argumentParts 0 inside = .ok (parts, after) := by
    cases hrec : argumentParts 0 inside with
    | error e =>
      rw [hrec] at hparts
      cases hparts
    | ok found =>
      rw [hrec] at hparts
      cases hparts
      rfl
  simp only at h
  obtain ⟨_, _, rfl, rfl, rfl⟩ := h
  obtain ⟨part, others, rfl, rfl, hwalk, hothers⟩ := argumentParts_cut hcut
  exact ⟨part :: others, by simp, rfl, List.forall_mem_cons.mpr ⟨hwalk, hothers⟩, rfl⟩

/-- The texts of arguments, each of them a row of tokens that ends outside all parentheses. -/
def IsArguments (args : List String) : Prop :=
  ∃ rows : List (List Token), args = rows.map rowText ∧
    ∀ row ∈ rows, walk endsPart 0 row = some 0 ∧ AllWhole row

/-- Arguments are made of the tokens that they are read from. -/
theorem readArguments_rows {P : Token → Prop} {ts rest : List Token} {args : List String}
    (h : readArguments.run ts = .ok (args, rest)) (hts : ∀ t ∈ ts, P t) :
    (∃ rows : List (List Token), args = rows.map rowText ∧
      ∀ row ∈ rows, walk endsPart 0 row = some 0 ∧ ∀ t ∈ row, P t) ∧ ∀ t ∈ rest, P t := by
  obtain ⟨parts, -, rfl, hwalk, rfl⟩ := readArguments_cut h
  have hall : ∀ row ∈ parts, walk endsPart 0 row = some 0 ∧ ∀ t ∈ row, P t := by
    intro row hrow
    exact ⟨hwalk row hrow, fun t ht => hts t (by simp [mem_intercalate hrow ht])⟩
  refine ⟨?_, fun t ht => hts t (by simp [ht])⟩
  split
  · exact ⟨_, rfl, fun row hrow => hall row (List.dropLast_sublist _ |>.mem hrow)⟩
  · exact ⟨_, rfl, hall⟩

theorem readArguments_sound {ts rest : List Token} {args : List String}
    (h : readArguments.run ts = .ok (args, rest)) (hts : AllWhole ts) :
    IsArguments args ∧ AllWhole rest :=
  readArguments_rows h hts

def argumentRow (rows : List (List Token)) : List Token :=
  opening :: ([comma].intercalate rows ++ [closing])

/-- The arguments between two parentheses are read, an empty one at the end left out. -/
theorem run_readArguments_row {rows : List (List Token)} (hrows : ∀ row ∈ rows, walk endsPart 0 row = some 0)
    (more : List Token) : readArguments.run (argumentRow rows ++ more) =
      .ok ((if rows.getLast?.any List.isEmpty then rows.dropLast else rows).map rowText, more) := by
  have hcut : ∃ parts, argumentParts 0 ([comma].intercalate rows ++ closing :: more) = .ok (parts, more) ∧
      (if parts.getLast?.any List.isEmpty then parts.dropLast else parts) =
        if rows.getLast?.any List.isEmpty then rows.dropLast else rows := by
    by_cases hne : rows = []
    · subst hne
      exact ⟨[[]], rfl, rfl⟩
    · exact ⟨rows, argumentParts_row hne hrows more, rfl⟩
  obtain ⟨parts, hparts, hkept⟩ := hcut
  unfold readArguments
  simp only [run_bind_ok, run_takeMark_ok, run_get_ok, run_set_ok, run_pure_ok]
  refine ⟨(), [comma].intercalate rows ++ closing :: more, ?_, _, _, ⟨rfl, rfl⟩, (parts, more),
    [comma].intercalate rows ++ closing :: more, ?_, ?_⟩
  · simp [argumentRow, opening]
  · rw [hparts]
    rfl
  · simp only [hkept]
    exact ⟨⟨⟩, more, rfl, trivial, rfl⟩

theorem rowText_eq_empty_iff {ts : List Token} (h : AllWhole ts) : rowText ts = "" ↔ ts = [] := by
  constructor
  · intro hempty
    by_contra hne
    obtain ⟨front, c, htext, -⟩ := ends_rowText hne h
    rw [hempty] at htext
    exact absurd htext.symm (by simp)
  · rintro rfl
    rfl

/-- The last argument is empty where its text is. -/
theorem getLast?_rowText_iff {rows : List (List Token)} (h : ∀ row ∈ rows, AllWhole row) :
    (rows.map rowText).getLast? = some "" ↔ rows.getLast?.any List.isEmpty = true := by
  rw [List.getLast?_map]
  cases hlast : rows.getLast? with
  | none => simp
  | some row =>
    have hrow := rowText_eq_empty_iff (h row (List.mem_of_getLast? hlast))
    simp [hrow]

/-- Arguments of which the last is not empty are read again. -/
theorem argumentRow_rereads {rows : List (List Token)}
    (hrows : ∀ row ∈ rows, walk endsPart 0 row = some 0 ∧ AllWhole row)
    (hlast : (rows.map rowText).getLast? ≠ some "") (stop : List Token → Prop) :
    Rereads readArguments stop (argumentRow rows) (rows.map rowText) := by
  intro rest _
  have hkept := mt (getLast?_rowText_iff fun row hrow => (hrows row hrow).2).mpr hlast
  rw [run_readArguments_row (fun row hrow => (hrows row hrow).1), if_neg hkept]

theorem writes_rowTexts {rows : List (List Token)} (hrows : ∀ row ∈ rows, AllWhole row) :
    Writes (joined ", " (rows.map rowText)) ([comma].intercalate rows) := by
  apply writes_joined_comma
  induction rows with
  | nil => exact List.Forall₂.nil
  | cons row rows ih =>
    exact List.Forall₂.cons (writes_rowText (hrows row (by simp)))
      (ih (fun r hr => hrows r (by simp [hr])))

/-- The text of a call whose last argument is not empty; after its name it is read again as the
arguments. -/
theorem IsArguments.spelled {name : String} (hname : (word name).Whole) {args : List String}
    (h : IsArguments args) (hlast : args.getLast? ≠ some "") :
    ∃ ts, Spells (callText name args) (word name :: opening :: ts) ∧
      ∀ stop, Rereads readArguments stop (opening :: ts) args := by
  obtain ⟨rows, rfl, hrows⟩ := h
  refine ⟨[comma].intercalate rows ++ [closing], ?_, argumentRow_rereads hrows hlast⟩
  have hinside := (writes_rowTexts fun row hrow => (hrows row hrow).2).closed.after_opening
  have htext : callText name (rows.map rowText) =
      name ++ ("(" ++ (joined ", " (rows.map rowText) ++ ")")) := by
    simp [callText, String.append_assoc]
  rw [htext]
  refine ⟨hname.writes.before_mark hinside.writes (c := '(') (by decide) (by simp; rfl), ?_⟩
  rw [String.toList_append]
  exact hinside.ends.append_left _

def endsEmpty (e : String) : Bool :=
  endsIn e ", )"

theorem endsEmpty_eq_false {s : String} {front : List Char} {c : Char}
    (hs : s.toList = front ++ [c, ')']) (hc : c ≠ ' ') : endsEmpty s = false := by
  rw [endsEmpty, endsIn, ← Bool.not_eq_true, List.isSuffixOf_iff_suffix, hs]
  rintro ⟨before, hbefore⟩
  have hlast : (before ++ [',']) ++ [' ', ')'] = front ++ [c, ')'] := by simpa using hbefore
  have hpair := (List.append_inj' hlast rfl).2
  exact hc (by simpa using hpair.symm)

/-- An empty argument at the end is seen in the text, unless it is the only one. -/
theorem IsArguments.endsEmpty_iff {name : String} {args : List String} (h : IsArguments args) :
    endsEmpty (callText name args) = true ↔ args.getLast? = some "" ∧ args ≠ [""] := by
  constructor
  · intro hend
    obtain ⟨rows, rfl, hrows⟩ := h
    have hopen : ∀ s, (callText name s).toList = name.toList ++ ['(', ')'] →
        endsEmpty (callText name s) = false := fun s hs => endsEmpty_eq_false hs (by decide)
    -- With no argument, or with a single empty one, no comma stands before the parenthesis.
    rcases List.eq_nil_or_concat' rows with rfl | ⟨front, row, rfl⟩
    · rw [hopen _ (by simp [callText, joined])] at hend
      cases hend
    · by_cases hrow : row = []
      · subst hrow
        refine ⟨by simp [rowText], ?_⟩
        intro hone
        rw [hopen _ (by rw [callText, hone]; simp [joined])] at hend
        cases hend
      · -- The last token of the last argument stands before the closing parenthesis.
        obtain ⟨before, c, hrowText, hc⟩ := ends_rowText hrow (hrows row (by simp)).2
        have htext : ∃ start, (joined ", " ((front ++ [row]).map rowText)).toList =
            start ++ (rowText row).toList := by
          rw [List.map_append, List.map_singleton]
          cases hfront : front.map rowText with
          | nil => exact ⟨[], by simp [joined]⟩
          | cons s others =>
            refine ⟨(String.intercalate ", " (s :: others)).toList ++ [',', ' '], ?_⟩
            rw [joined, String.intercalate_append_of_ne_nil (by simp) (by simp),
              String.intercalate_singleton]
            simp
        obtain ⟨start, hstart⟩ := htext
        have hcall : (callText name ((front ++ [row]).map rowText)).toList =
            (name.toList ++ '(' :: (start ++ before)) ++ [c, ')'] := by
          simp only [callText, String.toList_append, hstart, hrowText]
          simp
        have hsolid : c ≠ ' ' := by
          rintro rfl
          exact absurd hc (by decide)
        rw [endsEmpty_eq_false hcall hsolid] at hend
        cases hend
  · rintro ⟨hlast, hne⟩
    obtain ⟨front, rfl⟩ := List.getLast?_eq_some_iff.mp hlast
    have hfront : front ≠ [] := by
      rintro rfl
      exact hne rfl
    rw [endsEmpty, endsIn, List.isSuffixOf_iff_suffix, callText, joined,
      String.intercalate_append_of_ne_nil hfront (by simp), String.intercalate_singleton]
    refine ⟨name.toList ++ '(' :: (String.intercalate ", " front).toList, ?_⟩
    simp

def NotOpening (ts : List Token) : Prop :=
  ts.head?.any (·.isMark "(") = false

structure Expression (name e : String) : Prop where
  begins : e = name ∨ ∃ inside, e = name ++ "(" ++ inside
  spelled : Spelled (· = word name) readExpression NotOpening e e

theorem Expression.of_name {name : String} (h : (word name).Whole) : Expression name name := by
  refine ⟨Or.inl rfl, word name, [], rfl, h.spells, ?_⟩
  intro rest hrest
  unfold readExpression
  simp only [run_bind_ok, run_takeName_ok, run_atMark_ok]
  refine ⟨name, rest, rfl, false, rest, ⟨hrest, rfl⟩, ?_⟩
  rw [if_neg (by decide), run_pure_ok]
  exact ⟨rfl, rfl⟩

theorem Expression.of_call {name : String} {args : List String} (h : (word name).Whole)
    (hargs : IsArguments args) (hlast : args.getLast? ≠ some "") :
    Expression name (callText name args) := by
  obtain ⟨ts, hspells, hread⟩ := hargs.spelled h hlast
  refine ⟨Or.inr ⟨joined ", " args ++ ")", by simp [callText, String.append_assoc]⟩,
    word name, opening :: ts, rfl, hspells, ?_⟩
  intro rest hrest
  unfold readExpression
  simp only [run_bind_ok, run_takeName_ok, run_atMark_ok]
  refine ⟨name, opening :: ts ++ rest, rfl, true, _, ⟨rfl, rfl⟩, ?_⟩
  simp only [if_true, run_bind_ok, run_pure_ok]
  exact ⟨args, rest, hread NotOpening rest hrest, rfl, rfl⟩

theorem readExpression_sound {ts rest : List Token} {e : String}
    (h : readExpression.run ts = .ok (e, rest)) (hts : AllWhole ts) :
    AllWhole rest ∧ ∃ name after, ts = word name :: after ∧
      (endsEmpty e = false → Expression name e) := by
  unfold readExpression at h
  simp only [run_bind_ok, run_takeName_ok, run_atMark_ok] at h
  obtain ⟨name, after, rfl, open?, _, ⟨-, rfl⟩, h⟩ := h
  by_cases ho : open? = true
  · rw [if_pos ho] at h
    simp only [run_bind_ok, run_pure_ok] at h
    obtain ⟨args, _, hargs, rfl, rfl⟩ := h
    obtain ⟨hargs, hrest⟩ := readArguments_sound hargs hts.tail
    refine ⟨hrest, name, after, rfl, ?_⟩
    intro hend
    change Expression name (callText name args)
    by_cases hlast : args.getLast? = some ""
    · -- Only a single empty argument is written as no argument at all.
      by_cases hone : args = [""]
      · subst hone
        have hnone : IsArguments [] := ⟨[], rfl, by simp⟩
        have htext : callText name [""] = callText name [] := by simp [callText, joined]
        rw [htext]
        exact Expression.of_call hts.head hnone (by simp)
      · have hbad : endsEmpty (callText name args) = true := hargs.endsEmpty_iff.mpr ⟨hlast, hone⟩
        rw [callText] at hbad
        rw [hbad] at hend
        cases hend
    · exact Expression.of_call hts.head hargs hlast
  · rw [if_neg ho, run_pure_ok] at h
    obtain ⟨rfl, rfl⟩ := h
    exact ⟨hts.tail, name, after, rfl, fun _ => Expression.of_name hts.head⟩

end Soql.Query
