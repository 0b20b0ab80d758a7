import Mathlib.Data.List.TakeWhile
import Soql.Query.Token

/-!
Where a token ends. A token that is cut out of its text is read again, whole, before a space or a
mark: none of them can go on with the token in front of it.
-/

namespace Soql.Token

open Text

/-- A space or a mark: no token with something in front of it goes on with one of these. -/
def separates (c : Char) : Bool :=
  c == ' ' || c == ')' || c == ',' || c == '('

def Apart (s : List Char) : Prop :=
  ∀ c ∈ s.head?, separates c = true

theorem Apart.nil : Apart [] := by
  intro c hc
  cases hc

theorem Apart.cons {c : Char} (hc : separates c = true) (s : List Char) : Apart (c :: s) := by
  intro d hd
  obtain rfl : c = d := by simpa using hd
  exact hc

theorem Apart.append {s x : List Char} (hs : Apart s) (hx : Apart x) : Apart (s ++ x) := by
  cases s with
  | nil => exact hx
  | cons c s => exact Apart.cons (hs c rfl) (s ++ x)

theorem eq_of_separates {c : Char} (hc : separates c = true) :
    c = ' ' ∨ c = ')' ∨ c = ',' ∨ c = '(' := by
  simpa [separates, or_assoc] using hc

theorem Apart.not_decimal {s : List Char} (hs : Apart s) : ∀ c ∈ s.head?, isDecimal c = false := by
  intro c hc
  rcases eq_of_separates (hs c hc) with rfl | rfl | rfl | rfl <;> decide

theorem Apart.not_ident {s : List Char} (hs : Apart s) : ∀ c ∈ s.head?, isIdentRest c = false := by
  intro c hc
  rcases eq_of_separates (hs c hc) with rfl | rfl | rfl | rfl <;> decide

theorem Apart.ne {s : List Char} (hs : Apart s) {mark : Char} (hm : separates mark = false) :
    ∀ c ∈ s.head?, c ≠ mark := by
  rintro c hc rfl
  rw [hs c hc] at hm
  cases hm

/-- A run of characters of a kind is the same before any text that does not go on with one. -/
theorem takeWhile_take_append {α : Type} {p : α → Bool} (s : List α) {x : List α}
    (hx : ∀ c ∈ x.head?, p c = false) :
    (s.take (s.takeWhile p).length ++ x).takeWhile p = s.takeWhile p := by
  have hnil : x.takeWhile p = [] := by
    cases x with
    | nil => rfl
    | cons c x => simp [hx c rfl]
  rw [← List.prefix_iff_eq_take.mp (List.takeWhile_prefix p), List.takeWhile_append_of_pos, hnil,
    List.append_nil]
  intro a ha
  exact List.mem_takeWhile_imp ha

theorem digitCount_take_append (s : List Char) {x : List Char}
    (hx : ∀ c ∈ x.head?, isDecimal c = false) :
    digitCount (s.take (digitCount s) ++ x) = digitCount s := by
  unfold digitCount
  rw [takeWhile_take_append s hx]

theorem digitCount_le (s : List Char) : digitCount s ≤ s.length :=
  (List.takeWhile_sublist _).length_le

def markedDigits (mark : Char) : List Char → Nat
  | [] => 0
  | c :: rest => if c = mark ∧ digitCount rest ≠ 0 then 1 + digitCount rest else 0

theorem placesLength_eq (s : List Char) : placesLength s = markedDigits '.' s := by
  cases s with
  | nil => rfl
  | cons c rest =>
    by_cases hc : c = '.'
    · subst hc
      by_cases h0 : digitCount rest = 0 <;> simp [placesLength, markedDigits, h0]
    · simp [placesLength, markedDigits, hc]

theorem countLength_eq (s : List Char) : countLength s = markedDigits ':' s := by
  cases s with
  | nil => rfl
  | cons c rest =>
    by_cases hc : c = ':'
    · subst hc
      by_cases h0 : digitCount rest = 0 <;> simp [countLength, markedDigits, h0]
    · simp [countLength, markedDigits, hc]

theorem markedDigits_le (mark : Char) (s : List Char) : markedDigits mark s ≤ s.length := by
  cases s with
  | nil => simp [markedDigits]
  | cons c rest =>
    have := digitCount_le rest
    simp only [markedDigits, List.length_cons]
    split <;> omega

theorem markedDigits_take_append {mark : Char} (s : List Char) {x : List Char}
    (hd : ∀ c ∈ x.head?, isDecimal c = false) (hm : ∀ c ∈ x.head?, c ≠ mark) :
    markedDigits mark (s.take (markedDigits mark s) ++ x) = markedDigits mark s := by
  have h0 : markedDigits mark x = 0 := by
    cases x with
    | nil => rfl
    | cons c rest => simp [markedDigits, hm c rfl]
  cases s with
  | nil => simpa [markedDigits] using h0
  | cons c rest =>
    by_cases hc : c = mark ∧ digitCount rest ≠ 0
    · have hlen : markedDigits mark (c :: rest) = digitCount rest + 1 := by
        simp [markedDigits, hc, Nat.add_comm]
      rw [hlen, List.take_succ_cons, List.cons_append]
      simp [markedDigits, digitCount_take_append rest hd, hc, Nat.add_comm]
    · have hlen : markedDigits mark (c :: rest) = 0 := if_neg hc
      simpa [hlen] using h0

/-- A part of a token that begins with a mark goes on with the mark, or not at all. -/
theorem markedDigits_head (mark : Char) {q : Char → Prop} (hq : q mark) (s : List Char)
    {x : List Char} (hx : ∀ c ∈ x.head?, q c) : ∀ c ∈ (s.take (markedDigits mark s) ++ x).head?, q c := by
  cases s with
  | nil => simpa [markedDigits] using hx
  | cons c rest =>
    by_cases hc : c = mark ∧ digitCount rest ≠ 0
    · rw [show markedDigits mark (c :: rest) = digitCount rest + 1 by
        simp [markedDigits, hc, Nat.add_comm]]
      simpa [hc.1] using hq
    · rw [show markedDigits mark (c :: rest) = 0 from if_neg hc]
      simpa using hx

theorem placesLength_take_append (s : List Char) {x : List Char}
    (hd : ∀ c ∈ x.head?, isDecimal c = false) (hm : ∀ c ∈ x.head?, c ≠ '.') :
    placesLength (s.take (placesLength s) ++ x) = placesLength s := by
  simp only [placesLength_eq]
  exact markedDigits_take_append s hd hm

theorem countLength_take_append (s : List Char) {x : List Char} (hx : Apart x) :
    countLength (s.take (countLength s) ++ x) = countLength s := by
  simp only [countLength_eq]
  exact markedDigits_take_append s hx.not_decimal (hx.ne (by decide))

theorem numberLength_take_append {s : List Char} {n : Nat} (h : numberLength s = some n)
    {x : List Char} (hx : Apart x) : numberLength (s.take n ++ x) = some n := by
  unfold numberLength at h
  simp only [beq_iff_eq] at h
  split at h
  · cases h
  · rename_i h0
    obtain rfl := Option.some.inj h
    have hd := digitCount_le s
    have hends := markedDigits_head '.' (q := fun c => isDecimal c = false) (by decide)
      (s.drop (digitCount s)) hx.not_decimal
    rw [← placesLength_eq] at hends
    have hcount := digitCount_take_append s hends
    rw [List.take_add, List.append_assoc]
    simp only [numberLength, hcount, h0, beq_iff_eq, if_false]
    rw [List.drop_left' (List.length_take_of_le hd), placesLength_take_append _ hx.not_decimal (hx.ne (by decide))]

/-- A number lies within its text. -/
theorem numberLength_le {s : List Char} {n : Nat} (h : numberLength s = some n) :
    n ≤ s.length ∧ 0 < n := by
  unfold numberLength at h
  simp only [beq_iff_eq] at h
  split at h
  · cases h
  · have hd := digitCount_le s
    have hp := markedDigits_le '.' (s.drop (digitCount s))
    rw [← placesLength_eq, List.length_drop] at hp
    obtain rfl := Option.some.inj h
    omega

def fits (f c : Char) : Bool :=
  if f == '0' then isDecimal c else c == f

theorem hasShape_cons (f c : Char) (fs cs : List Char) :
    hasShape (f :: fs) (c :: cs) = true ↔ fits f c = true ∧ hasShape fs cs = true := by
  simp only [hasShape, fits, Bool.and_eq_true]

theorem length_le_of_hasShape {shape s : List Char} (h : hasShape shape s = true) :
    shape.length ≤ s.length := by
  fun_induction hasShape shape s with
  | case1 => simp
  | case2 => cases h
  | case3 f fs c cs ih =>
    rw [Bool.and_eq_true] at h
    simpa using ih h.2

/-- Only the part of a text that is as long as the shape counts. -/
theorem hasShape_take_append {shape s : List Char} (h : hasShape shape s = true) {n : Nat}
    (hn : shape.length ≤ n) (x : List Char) : hasShape shape (s.take n ++ x) = true := by
  induction shape generalizing s n with
  | nil => rfl
  | cons f fs ih =>
    cases s with
    | nil => cases h
    | cons c cs =>
      obtain ⟨m, rfl⟩ : ∃ m, n = m+1 := ⟨n-1, by simp at hn; omega⟩
      have hc := (hasShape_cons f c fs cs).mp h
      rw [List.take_succ_cons, List.cons_append, hasShape_cons]
      exact ⟨hc.1, ih hc.2 (by simpa using hn)⟩

def Firm (shape : List Char) : Prop :=
  ∀ f ∈ shape, ∀ c, separates c = true → fits f c = false

theorem firm_of_all {shape : List Char}
    (h : (shape.all fun f => [' ', ')', ',', '('].all fun c => !fits f c) = true) : Firm shape := by
  intro f hf c hc
  have hall := List.all_eq_true.mp (List.all_eq_true.mp h f hf) c (by
    rcases eq_of_separates hc with rfl | rfl | rfl | rfl <;> simp)
  simpa using hall

theorem firm_date : Firm "0000-00-00".toList :=
  firm_of_all (by decide)

theorem firm_time : Firm "T00:00:00".toList :=
  firm_of_all (by decide)

/-- A shape ends before a text that is apart. -/
theorem hasShape_of_append {shape s x : List Char} (hf : Firm shape) (hx : Apart x)
    (h : hasShape shape (s ++ x) = true) : hasShape shape s = true := by
  induction shape generalizing s with
  | nil => rfl
  | cons f fs ih =>
    cases s with
    | nil =>
      cases x with
      | nil => exact h
      | cons c x =>
        have hc := ((hasShape_cons f c fs x).mp h).1
        rw [hf f (by simp) c (hx c rfl)] at hc
        cases hc
    | cons c s =>
      rw [List.cons_append, hasShape_cons] at h
      exact (hasShape_cons f c fs s).mpr ⟨h.1, ih (fun g hg => hf g (by simp [hg])) h.2⟩

theorem zoneLength_cons {c : Char} (hc : c ≠ 'Z') (rest : List Char) :
    zoneLength (c :: rest) =
      if (c = '+' ∨ c = '-') ∧ hasShape "00:00".toList rest = true then 6 else 0 := by
  simp only [zoneLength, Bool.and_eq_true, Bool.or_eq_true, beq_iff_eq]

theorem zoneLength_le (s : List Char) : zoneLength s ≤ s.length := by
  cases s with
  | nil => simp [zoneLength]
  | cons c rest =>
    by_cases hz : c = 'Z'
    · simp [hz, zoneLength]
    · rw [zoneLength_cons hz]
      split
      · rename_i h
        have := length_le_of_hasShape h.2
        simp at this ⊢
        omega
      · simp

theorem zoneLength_of_apart {s : List Char} (hs : Apart s) : zoneLength s = 0 := by
  cases s with
  | nil => rfl
  | cons c rest => rcases eq_of_separates (hs c rfl) with rfl | rfl | rfl | rfl <;> rfl

/-- A time zone begins with its letter or its sign. -/
theorem zoneLength_head {q : Char → Prop} (hz : q 'Z') (hp : q '+') (hm : q '-') (s : List Char)
    {x : List Char} (hx : ∀ c ∈ x.head?, q c) : ∀ c ∈ (s.take (zoneLength s) ++ x).head?, q c := by
  cases s with
  | nil => simpa [zoneLength] using hx
  | cons c rest =>
    by_cases hc : c = 'Z'
    · simpa [hc, zoneLength] using hz
    · rw [zoneLength_cons hc]
      split
      · rename_i h
        rcases h.1 with rfl | rfl <;> simpa
      · simpa using hx

theorem zoneLength_take_append (s : List Char) {x : List Char} (hx : Apart x) :
    zoneLength (s.take (zoneLength s) ++ x) = zoneLength s := by
  cases s with
  | nil => simpa [zoneLength] using zoneLength_of_apart hx
  | cons c rest =>
    by_cases hz : c = 'Z'
    · simp [hz, zoneLength]
    · by_cases h : (c = '+' ∨ c = '-') ∧ hasShape "00:00".toList rest = true
      · have hshape := hasShape_take_append h.2 (show _ ≤ 5 by decide) x
        rw [zoneLength_cons hz, if_pos h, List.take_succ_cons, List.cons_append,
          zoneLength_cons hz, if_pos ⟨h.1, hshape⟩]
      · rw [zoneLength_cons hz, if_neg h, List.take_zero, List.nil_append, zoneLength_of_apart hx]

/-- A text that is apart begins with no time. -/
theorem timeLength_of_apart {s : List Char} (hs : Apart s) : timeLength s = 0 := by
  have h : ¬hasShape "T00:00:00".toList s = true := by
    intro h
    have := length_le_of_hasShape (hasShape_of_append (s := []) firm_time hs h)
    simp at this
  rw [timeLength, if_neg h]

theorem timeLength_le (s : List Char) : timeLength s ≤ s.length := by
  unfold timeLength
  split
  · rename_i h
    have hshape := length_le_of_hasShape h
    have hp := markedDigits_le '.' (s.drop 9)
    have hz := zoneLength_le (s.drop (9 + placesLength (s.drop 9)))
    rw [placesLength_eq] at *
    simp at hshape hp hz ⊢
    omega
  · simp

theorem timeLength_take_append (s : List Char) {x : List Char} (hx : Apart x) :
    timeLength (s.take (timeLength s) ++ x) = timeLength s := by
  by_cases h : hasShape "T00:00:00".toList s = true
  · let places := placesLength (s.drop 9)
    let zone := zoneLength (s.drop (9+places))
    have hlen : timeLength s = 9 + (places + zone) := by
      rw [timeLength, if_pos h]
      simp only [places, zone]
      omega
    have h9 : (s.take 9).length = 9 := List.length_take_of_le (length_le_of_hasShape h)
    have hp : places ≤ (s.drop 9).length := by
      simp only [places, placesLength_eq]
      exact markedDigits_le _ _
    have hsplit : s.take (9 + (places + zone)) ++ x =
        s.take 9 ++ ((s.drop 9).take places ++ ((s.drop (9+places)).take zone ++ x)) := by
      rw [List.take_add, List.take_add, List.drop_drop, List.append_assoc, List.append_assoc]
    have hshape := hasShape_take_append h (show _ ≤ 9 by decide)
      ((s.drop 9).take places ++ ((s.drop (9+places)).take zone ++ x))
    have hzone := zoneLength_take_append (s.drop (9+places)) hx
    have hplaces : placesLength ((s.drop 9).take places ++ ((s.drop (9+places)).take zone ++ x)) =
        places := by
      apply placesLength_take_append
      · exact zoneLength_head (by decide) (by decide) (by decide) _ hx.not_decimal
      · exact zoneLength_head (by decide) (by decide) (by decide) _ (hx.ne (by decide))
    rw [hlen, hsplit, timeLength, if_pos hshape, List.drop_left' h9]
    simp only [hplaces]
    rw [← List.drop_drop, List.drop_left' h9, List.drop_left' (List.length_take_of_le hp), hzone]
    omega
  · have hlen : timeLength s = 0 := if_neg h
    rw [hlen, List.take_zero, List.nil_append, timeLength_of_apart hx]

/-- A date is the same before any text that is apart. -/
theorem dateLength_take_append {s : List Char} {n : Nat} (h : dateLength s = some n) {x : List Char}
    (hx : Apart x) : dateLength (s.take n ++ x) = some n := by
  unfold dateLength at h
  split at h
  · rename_i hs
    obtain rfl := Option.some.inj h
    have h10 : (s.take 10).length = 10 := List.length_take_of_le (length_le_of_hasShape hs)
    have hshape := hasShape_take_append hs (show _ ≤ 10 by decide)
      ((s.drop 10).take (timeLength (s.drop 10)) ++ x)
    rw [List.take_add, List.append_assoc, dateLength, if_pos hshape, List.drop_left' h10,
      timeLength_take_append _ hx]
  · cases h

/-- What is no date is none when it is cut and followed by a text that is apart. -/
theorem dateLength_none_take_append {s : List Char} (h : dateLength s = none) (n : Nat)
    {x : List Char} (hx : Apart x) : dateLength (s.take n ++ x) = none := by
  have hs : ¬hasShape "0000-00-00".toList s = true := by
    intro hs
    rw [dateLength, if_pos hs] at h
    cases h
  have ht : ¬hasShape "0000-00-00".toList (s.take n ++ x) = true := by
    intro ht
    have hcut := hasShape_of_append firm_date hx ht
    have hlong := hasShape_take_append hcut (length_le_of_hasShape hcut) (s.drop n)
    rw [List.take_length, List.take_append_drop] at hlong
    exact hs hlong
  rw [dateLength, if_neg ht]

/-- A date lies within its text. -/
theorem dateLength_le {s : List Char} {n : Nat} (h : dateLength s = some n) :
    n ≤ s.length ∧ 0 < n := by
  unfold dateLength at h
  split at h
  · rename_i hs
    have hlen := length_le_of_hasShape hs
    have htime := timeLength_le (s.drop 10)
    simp at hlen htime
    obtain rfl := Option.some.inj h
    omega
  · cases h

/-- The further parts of a dotted name and what follows are the text. -/
theorem dottedRest_append (s : List Char) : (dottedRest s).1 ++ (dottedRest s).2 = s := by
  fun_induction dottedRest s with
  | case1 c rest _ _ more after found ih =>
    rw [found] at ih
    simp only at ih
    simp [ih, List.takeWhile_append_dropWhile]
  | case2 => rfl
  | case3 => rfl

/-- The further parts of a dotted name begin with a point, so no identifier runs into them. -/
theorem dottedRest_head (s : List Char) {x : List Char} (hi : ∀ c ∈ x.head?, isIdentRest c = false) :
    ∀ c ∈ ((dottedRest s).1 ++ x).head?, isIdentRest c = false := by
  fun_induction dottedRest s with
  | case1 =>
    intro c hc
    obtain rfl : '.' = c := by simpa using hc
    decide
  | case2 => exact hi
  | case3 => exact hi

theorem dottedRest_eq_nil {x : List Char} (hd : ∀ c ∈ x.head?, c ≠ '.') : dottedRest x = ([], x) := by
  unfold dottedRest
  split
  · exact absurd rfl (hd '.' rfl)
  · rfl

/-- A run of characters of a kind ends before a text that begins with none of them. -/
theorem takeWhile_append_head {p : Char → Bool} (s : List Char) {x : List Char}
    (hx : ∀ c ∈ x.head?, p c = false) :
    (s ++ x).takeWhile p = s.takeWhile p ∧ (s ++ x).dropWhile p = s.dropWhile p ++ x := by
  induction s with
  | nil =>
    cases x with
    | nil => exact ⟨rfl, rfl⟩
    | cons c x => simp [hx c rfl]
  | cons c s ih => by_cases hc : p c = true <;> simp [hc, ih]

theorem takeWhile_append_stop {p : Char → Bool} (run : List Char) {x : List Char}
    (hr : ∀ c ∈ run, p c = true) (hx : ∀ c ∈ x.head?, p c = false) :
    (run ++ x).takeWhile p = run ∧ (run ++ x).dropWhile p = x := by
  obtain ⟨htake, hdrop⟩ := takeWhile_append_head run hx
  rw [htake, hdrop, List.takeWhile_eq_self_iff.mpr hr, List.dropWhile_eq_nil_iff.mpr hr]
  exact ⟨rfl, rfl⟩

/-- The further parts of a dotted name are the same before any text that does not go on with one. -/
theorem dottedRest_append_stop (s : List Char) {x : List Char} (hi : ∀ c ∈ x.head?, isIdentRest c = false)
    (hd : ∀ c ∈ x.head?, c ≠ '.') : dottedRest ((dottedRest s).1 ++ x) = ((dottedRest s).1, x) := by
  fun_induction dottedRest s with
  | case1 c rest hc _ more after found ih =>
    rw [found] at ih
    simp only at ih
    have hhead := dottedRest_head (rest.dropWhile isIdentRest) hi
    rw [found] at hhead
    have hrun := takeWhile_append_stop (rest.takeWhile isIdentRest)
      (fun d hd' => List.mem_takeWhile_imp hd') hhead
    rw [List.append_assoc, List.cons_append, List.cons_append, dottedRest]
    simp only [hc, if_true, hrun.1, hrun.2, ih, List.cons_append]
  | case2 => exact dottedRest_eq_nil hd
  | case3 => exact dottedRest_eq_nil hd

theorem dotted_append {s path after : List Char} (h : dotted s = some (path, after)) :
    path ++ after = s ∧ 0 < path.length := by
  cases s with
  | nil => cases h
  | cons c rest =>
    simp only [dotted] at h
    split at h
    · cases h
      have hrest := dottedRest_append (rest.dropWhile isIdentRest)
      simp [hrest, List.takeWhile_append_dropWhile]
    · cases h

/-- A dotted name is the same before any text that does not go on with one. -/
theorem dotted_append_stop {s path after : List Char} (h : dotted s = some (path, after))
    {x : List Char} (hi : ∀ c ∈ x.head?, isIdentRest c = false) (hd : ∀ c ∈ x.head?, c ≠ '.') :
    dotted (path ++ x) = some (path, x) := by
  cases s with
  | nil => cases h
  | cons c rest =>
    simp only [dotted] at h
    split at h
    · rename_i hc
      cases h
      have hrun := takeWhile_append_stop (rest.takeWhile isIdentRest)
        (fun d hd' => List.mem_takeWhile_imp hd') (dottedRest_head (rest.dropWhile isIdentRest) hi)
      have hparts := dottedRest_append_stop (rest.dropWhile isIdentRest) hi hd
      simp only [List.append_assoc, List.cons_append, dotted, hc, if_true, hrun.1, hrun.2, hparts]
    · cases h

/-- A name lies within its text. -/
theorem nameLength_le {s : List Char} {n : Nat} (h : nameLength s = some n) :
    n ≤ s.length ∧ 0 < n := by
  obtain ⟨⟨path, after⟩, hp, rfl⟩ := Option.map_eq_some_iff.mp h
  obtain ⟨rfl, hpos⟩ := dotted_append hp
  have hcount := markedDigits_le ':' after
  rw [← countLength_eq] at hcount
  simp only [List.length_append]
  omega

/-- A name is the same before any text that is apart. -/
theorem nameLength_take_append {s : List Char} {n : Nat} (h : nameLength s = some n) {x : List Char}
    (hx : Apart x) : nameLength (s.take n ++ x) = some n := by
  obtain ⟨⟨path, after⟩, hp, rfl⟩ := Option.map_eq_some_iff.mp h
  obtain ⟨rfl, hpos⟩ := dotted_append hp
  have hi := markedDigits_head ':' (q := fun c => isIdentRest c = false) (by decide) after
    hx.not_ident
  have hd := markedDigits_head ':' (q := (· ≠ '.')) (by decide) after (hx.ne (by decide))
  rw [← countLength_eq] at hi hd
  have hcount := countLength_take_append after hx
  rw [List.take_length_add_append, List.append_assoc, nameLength, dotted_append_stop hp hi hd]
  simp only [Option.map_some, hcount]

/-- The body of a literal is the same whatever follows its closing quote. -/
theorem literalBody_append_quote {quote : Char} (hq : quote ≠ '\\') {s body after : List Char}
    (h : literalBody quote s = some (body, after)) (x : List Char) :
    literalBody quote (body ++ quote :: x) = some (body, x) := by
  fun_induction literalBody quote s generalizing body after with
  | case1 => cases h
  | case2 c rest hc ih =>
    obtain ⟨⟨body', after'⟩, found, eq⟩ := Option.map_eq_some_iff.mp h
    cases eq
    simp [literalBody, hc, ih found]
  | case3 c rest hne hc =>
    cases h
    simp [literalBody, hq]
  | case4 => cases h
  | case5 c rest hne hc hb ih =>
    obtain ⟨⟨body', after'⟩, found, eq⟩ := Option.map_eq_some_iff.mp h
    cases eq
    simp only [beq_iff_eq] at hc hb
    simp [literalBody, hc, hb, ih found]
  | case6 => cases h

theorem not_longOperator {c : Char} {x : List Char} (hx : Apart x) :
    x.head?.any (isLongOperator c) = false := by
  cases x with
  | nil => rfl
  | cons d x =>
    have h1 : d ≠ '=' := hx.ne (by decide) d rfl
    have h2 : d ≠ '>' := hx.ne (by decide) d rfl
    simp [isLongOperator, h1, h2]

end Soql.Token
