import Soql.Proofs.Query.Ends

namespace Soql.Query

open Text Token

variable {α β : Type}

theorem ok_bind (a : α) (f : α → Except ParseError β) : (Except.ok a >>= f) = f a :=
  rfl

theorem exists_ok_of_any {ε : Type} {r : Except ε α} {p : α → Bool}
    (h : r.toOption.any p = true) : ∃ a, r = .ok a ∧ p a = true := by
  cases r with
  | error e => cases h
  | ok a => exact ⟨a, rfl, h⟩

/-- A reader after another one succeeds where both do. -/
theorem run_bind_ok {r : Reader α} {f : α → Reader β} {ts rest : List Token} {b : β} :
    (r >>= f).run ts = .ok (b, rest) ↔
      ∃ a mid, r.run ts = .ok (a, mid) ∧ (f a).run mid = .ok (b, rest) := by
  rw [StateT.run_bind]
  constructor
  · intro h
    cases hr : r.run ts with
    | error e =>
      rw [hr] at h
      cases h
    | ok p =>
      rw [hr] at h
      exact ⟨p.1, p.2, rfl, h⟩
  · rintro ⟨a, mid, hr, hf⟩
    rw [hr]
    exact hf

theorem run_pure_ok {ts rest : List Token} {a b : α} :
    (pure a : Reader α).run ts = .ok (b, rest) ↔ a = b ∧ ts = rest := by
  rw [StateT.run_pure]
  constructor
  · intro h
    cases h
    exact ⟨rfl, rfl⟩
  · rintro ⟨rfl, rfl⟩
    rfl

theorem run_throw_ok {ts rest : List Token} {e : ParseError} {a : α} :
    ¬(throw e : Reader α).run ts = .ok (a, rest) := by
  intro h
  cases h

theorem run'_ok {r : Reader α} {ts : List Token} {a : α} :
    r.run' ts = .ok a ↔ ∃ rest, r.run ts = .ok (a, rest) := by
  change Except.map Prod.fst (r.run ts) = .ok a ↔ _
  cases r.run ts with
  | error e => simp [Except.map]
  | ok p => simp [Except.map, Prod.ext_iff]

theorem run_peek (ts : List Token) : peek.run ts = .ok (ts.head?, ts) :=
  rfl

theorem run_atWord (words : List String) (ts : List Token) :
    (atWord words).run ts = .ok (ts.head?.any (·.isWord words), ts) :=
  rfl

theorem run_atMark (mark : String) (ts : List Token) :
    (atMark mark).run ts = .ok (ts.head?.any (·.isMark mark), ts) :=
  rfl

theorem run_take (t : Token) (ts : List Token) : take.run (t :: ts) = .ok (t, ts) :=
  rfl

theorem run_take_ok {t : Token} {ts rest : List Token} :
    take.run ts = .ok (t, rest) ↔ ts = t :: rest := by
  constructor
  · intro h
    cases ts <;> cases h
    rfl
  · rintro rfl
    rfl

theorem throw_bind (e : ParseError) (f : α → Reader β) : (throw e >>= f) = (throw e : Reader β) :=
  rfl

/-- A test that fails ends the reading. -/
theorem run_guard_ok {c : Prop} [Decidable c] {r : Reader α} {e : ParseError} {ts rest : List Token}
    {a : α} : (if c then r else throw e).run ts = .ok (a, rest) ↔ c ∧ r.run ts = .ok (a, rest) := by
  split
  · simp_all
  · rename_i hc
    simp only [hc, false_and, iff_false]
    exact run_throw_ok

theorem run_bar_ok {c : Prop} [Decidable c] {r : Reader α} {e : ParseError} {ts rest : List Token}
    {a : α} : (if c then throw e else r).run ts = .ok (a, rest) ↔ ¬c ∧ r.run ts = .ok (a, rest) := by
  split
  · rename_i hc
    simp only [hc, not_true_eq_false, false_and, iff_false]
    exact run_throw_ok
  · simp_all

theorem run_takeWord_ok {w : String} {ts rest : List Token} {u : Unit} :
    (takeWord w).run ts = .ok (u, rest) ↔ ∃ t, ts = t :: rest ∧ t.upper = w := by
  unfold takeWord
  simp only [run_bind_ok, run_take_ok, run_guard_ok, run_pure_ok, beq_iff_eq]
  constructor
  · rintro ⟨t, mid, rfl, hw, -, rfl⟩
    exact ⟨t, rfl, hw⟩
  · rintro ⟨t, rfl, hw⟩
    exact ⟨t, rest, rfl, hw, trivial, rfl⟩

theorem isMark_iff {t : Token} {mark : String} : t.isMark mark = true ↔ t = ⟨.mark, mark⟩ := by
  obtain ⟨kind, text⟩ := t
  simp [isMark]

theorem run_takeMark_ok {mark : String} {ts rest : List Token} {u : Unit} :
    (takeMark mark).run ts = .ok (u, rest) ↔ ts = ⟨.mark, mark⟩ :: rest := by
  unfold takeMark
  simp only [run_bind_ok, run_take_ok, run_guard_ok, run_pure_ok, isMark_iff]
  constructor
  · rintro ⟨t, mid, rfl, rfl, -, rfl⟩
    rfl
  · rintro rfl
    exact ⟨_, rest, rfl, rfl, trivial, rfl⟩

theorem run_takeName_ok {what s : String} {ts rest : List Token} :
    (takeName what).run ts = .ok (s, rest) ↔ ts = word s :: rest := by
  unfold takeName
  simp only [run_bind_ok, run_take_ok, throw_bind, run_guard_ok, run_pure_ok, beq_iff_eq]
  constructor
  · rintro ⟨⟨kind, text⟩, mid, rfl, rfl, rfl, rfl⟩
    rfl
  · rintro rfl
    exact ⟨_, rest, rfl, rfl, rfl, rfl⟩

/-- The readers that look at the next token only. -/
theorem run_atWord_ok {words : List String} {ts rest : List Token} {b : Bool} :
    (atWord words).run ts = .ok (b, rest) ↔ ts.head?.any (·.isWord words) = b ∧ ts = rest := by
  rw [run_atWord]
  simp

theorem run_atMark_ok {mark : String} {ts rest : List Token} {b : Bool} :
    (atMark mark).run ts = .ok (b, rest) ↔ ts.head?.any (·.isMark mark) = b ∧ ts = rest := by
  rw [run_atMark]
  simp

theorem run_peek_ok {ts rest : List Token} {t? : Option Token} :
    peek.run ts = .ok (t?, rest) ↔ ts.head? = t? ∧ ts = rest := by
  rw [run_peek]
  simp

theorem run_get_ok {ts rest us : List Token} :
    (get : Reader (List Token)).run ts = .ok (us, rest) ↔ ts = us ∧ ts = rest := by
  rw [show (get : Reader (List Token)).run ts = .ok (ts, ts) from rfl]
  simp

theorem run_set_ok {ts rest us : List Token} {u : PUnit} :
    (set us : Reader PUnit).run ts = .ok (u, rest) ↔ us = rest := by
  rw [show (set us : Reader PUnit).run ts = .ok (⟨⟩, us) from rfl]
  simp

def AllWhole (ts : List Token) : Prop :=
  ∀ t ∈ ts, t.Whole

def Yields (r : Reader α) (P : α → Prop) : Prop :=
  ∀ ⦃ts rest : List Token⦄ ⦃a : α⦄, r.run ts = .ok (a, rest) → AllWhole ts → P a ∧ AllWhole rest

def Rereads (r : Reader α) (stop : List Token → Prop) (ts : List Token) (a : α) : Prop :=
  ∀ rest, stop rest → r.run (ts ++ rest) = .ok (a, rest)

/-- A text whose first token is of a kind is read as a value in front of everything allowed. -/
def Spelled (first : Token → Prop) (r : Reader α) (stop : List Token → Prop) (s : String) (a : α) :
    Prop :=
  ∃ t ts, first t ∧ Spells s (t :: ts) ∧ Rereads r stop (t :: ts) a

def anyFirst (_ : Token) : Prop :=
  True

theorem Spelled.weaken {first first' : Token → Prop} {r : Reader α} {stop stop' : List Token → Prop}
    {s : String} {a : α} (h : Spelled first r stop s a) (hfirst : ∀ t, first t → first' t)
    (hstop : ∀ ts, stop' ts → stop ts) : Spelled first' r stop' s a := by
  obtain ⟨t, ts, ht, hspells, hread⟩ := h
  exact ⟨t, ts, hfirst t ht, hspells, fun rest hrest => hread rest (hstop rest hrest)⟩

theorem AllWhole.nil : AllWhole [] := by
  intro t ht
  cases ht

theorem AllWhole.cons {t : Token} {ts : List Token} (ht : t.Whole) (hts : AllWhole ts) :
    AllWhole (t :: ts) := by
  intro u hu
  rcases List.mem_cons.mp hu with rfl | hu
  · exact ht
  · exact hts u hu

theorem AllWhole.tail {t : Token} {ts : List Token} (h : AllWhole (t :: ts)) : AllWhole ts :=
  fun u hu => h u (by simp [hu])

theorem AllWhole.head {t : Token} {ts : List Token} (h : AllWhole (t :: ts)) : t.Whole :=
  h t (by simp)

theorem takeName_yields (what : String) : Yields (takeName what) fun s => (word s).Whole := by
  intro ts rest s h hts
  obtain rfl := run_takeName_ok.mp h
  exact ⟨hts.head, hts.tail⟩

theorem takeName_rereads (what s : String) (stop : List Token → Prop) :
    Rereads (takeName what) stop [word s] s := by
  intro rest hrest
  exact run_takeName_ok.mpr rfl

theorem separated_yields {isSeparator : Token → Bool} {item : Reader α} {P : α → Prop}
    (hitem : Yields item P) (fuel : Nat) :
    Yields (separated isSeparator item fuel) fun xs => xs ≠ [] ∧ ∀ x ∈ xs, P x := by
  induction fuel with
  | zero =>
    intro ts rest xs h
    exact absurd h run_throw_ok
  | succ fuel ih =>
    intro ts rest xs h hts
    rw [separated] at h
    obtain ⟨first, ts₁, hfirst, hnext⟩ := run_bind_ok.mp h
    obtain ⟨hP, hwhole⟩ := hitem hfirst hts
    obtain ⟨next, ts₂, hpeek, hmore⟩ := run_bind_ok.mp hnext
    obtain ⟨rfl, rfl⟩ := run_peek_ok.mp hpeek
    split at hmore
    · obtain ⟨sep, ts₃, htake, hothers⟩ := run_bind_ok.mp hmore
      rw [run_take_ok] at htake
      rw [htake] at hwhole
      obtain ⟨others, ts₄, hrun, hout⟩ := run_bind_ok.mp hothers
      obtain ⟨rfl, rfl⟩ := run_pure_ok.mp hout
      obtain ⟨⟨-, hall⟩, hrest⟩ := ih hrun hwhole.tail
      refine ⟨⟨by simp, ?_⟩, hrest⟩
      intro x hx
      rcases List.mem_cons.mp hx with rfl | hx
      · exact hP
      · exact hall x hx
    · obtain ⟨rfl, rfl⟩ := run_pure_ok.mp hmore
      refine ⟨⟨by simp, ?_⟩, hwhole⟩
      intro x hx
      rw [List.mem_singleton.mp hx]
      exact hP

theorem commaList_yields {item : Reader α} {P : α → Prop} (hitem : Yields item P) :
    Yields (commaList item) fun xs => xs ≠ [] ∧ ∀ x ∈ xs, P x := by
  intro ts rest xs h
  obtain ⟨us, mid, hget, h⟩ := run_bind_ok.mp h
  obtain ⟨rfl, rfl⟩ := run_get_ok.mp hget
  exact separated_yields hitem _ h

/-- Tokens that are read as items, with a separator between any two that ends the item before it. -/
inductive Row (isSeparator : Token → Bool) (item : Reader α) (stop : List Token → Prop) :
    List Token → List α → Prop
  | single {ts : List Token} {x : α} (hx : Rereads item stop ts x) : Row isSeparator item stop ts [x]
  | more {ts us : List Token} {sep : Token} {x : α} {xs : List α} (hx : Rereads item stop ts x)
    (hsep : isSeparator sep = true) (hstop : ∀ vs, stop (sep :: vs))
    (hxs : Row isSeparator item stop us xs) : Row isSeparator item stop (ts ++ sep :: us) (x :: xs)

section Row

variable {isSeparator : Token → Bool} {item : Reader α} {stop : List Token → Prop}

/-- Two rows with a separator between them are a row. -/
theorem Row.append {ts us : List Token} {xs ys : List α} {sep : Token}
    (hxs : Row isSeparator item stop ts xs) (hsep : isSeparator sep = true)
    (hstop : ∀ vs, stop (sep :: vs)) (hys : Row isSeparator item stop us ys) :
    Row isSeparator item stop (ts ++ sep :: us) (xs ++ ys) := by
  induction hxs with
  | single hx => exact .more hx hsep hstop hys
  | more hx hsep' hstop' _ ih =>
    rw [List.append_assoc, List.cons_append]
    exact .more hx hsep' hstop' ih

theorem Row.ne_nil {ts : List Token} {xs : List α} (h : Row isSeparator item stop ts xs) : xs ≠ [] := by
  cases h <;> simp

/-- There are at most as many items as tokens and one. -/
theorem Row.length_le {ts : List Token} {xs : List α} (h : Row isSeparator item stop ts xs) :
    xs.length ≤ ts.length + 1 := by
  induction h with
  | single hx => simp
  | more hx hsep hstop hxs ih =>
    simp only [List.length_cons, List.length_append]
    omega

/-- The items of a row are read again where nothing goes on with the row. -/
theorem Row.rereads {ts : List Token} {xs : List α} (h : Row isSeparator item stop ts xs) {fuel : Nat}
    (hfuel : xs.length ≤ fuel) : Rereads (separated isSeparator item fuel)
      (fun ts => stop ts ∧ ts.head?.any isSeparator = false) ts xs := by
  induction h generalizing fuel with
  | @single ts x hx =>
    obtain ⟨fuel, rfl⟩ : ∃ n, fuel = n + 1 := ⟨fuel - 1, by simp at hfuel; omega⟩
    intro rest hend
    rw [separated, run_bind_ok]
    refine ⟨x, rest, hx rest hend.1, ?_⟩
    rw [run_bind_ok]
    refine ⟨_, _, run_peek rest, ?_⟩
    rw [if_neg (by simp [hend.2]), run_pure_ok]
    exact ⟨rfl, rfl⟩
  | @more ts us sep x xs hx hsep hstop hxs ih =>
    obtain ⟨fuel, rfl⟩ : ∃ n, fuel = n + 1 := ⟨fuel - 1, by simp at hfuel; omega⟩
    intro rest hend
    have hothers := ih (by simpa using hfuel) rest hend
    rw [separated, run_bind_ok, List.append_assoc, List.cons_append]
    refine ⟨x, _, hx _ (hstop _), ?_⟩
    rw [run_bind_ok]
    refine ⟨_, _, run_peek _, ?_⟩
    rw [if_pos (by simp [hsep]), run_bind_ok]
    refine ⟨_, _, run_take _ _, ?_⟩
    rw [run_bind_ok]
    exact ⟨_, _, hothers, run_pure_ok.mpr ⟨rfl, rfl⟩⟩

/-- Items that are read again make a row where they are set side by side. -/
theorem row_intercalate {sep : Token} (hsep : isSeparator sep = true) (hstop : ∀ ts, stop (sep :: ts))
    {rows : List (List Token)} {xs : List α} (h : List.Forall₂ (Rereads item stop) rows xs)
    (hne : rows ≠ []) : Row isSeparator item stop ([sep].intercalate rows) xs := by
  induction h with
  | nil => exact absurd rfl hne
  | cons hx hrest ih =>
    cases hrest with
    | nil =>
      rw [List.intercalate_singleton]
      exact .single hx
    | cons hx' hrest' =>
      rw [List.intercalate_cons_cons, List.append_assoc, List.singleton_append]
      exact .more hx hsep hstop (ih (by simp))

end Row

theorem infix_intercalate {sep : Token} {row : List Token} {rows : List (List Token)} (hrow : row ∈ rows) :
    row <:+: [sep].intercalate rows := by
  induction rows with
  | nil => cases hrow
  | cons first rows ih =>
    cases rows with
    | nil =>
      obtain rfl := List.mem_singleton.mp hrow
      rewrite [List.intercalate_singleton]
      exact List.infix_rfl
    | cons second rows =>
      rw [List.intercalate_cons_cons, List.append_assoc]
      rcases List.mem_cons.mp hrow with rfl | hrow
      · exact (List.prefix_append _ _).isInfix
      · exact (ih hrow).trans ((List.suffix_append _ _).trans (List.suffix_append _ _)).isInfix

/-- The items of a row are made of the tokens of the row. -/
theorem mem_intercalate {sep t : Token} {row : List Token} {rows : List (List Token)} (hrow : row ∈ rows)
    (ht : t ∈ row) : t ∈ [sep].intercalate rows :=
  (infix_intercalate hrow).mem ht

theorem commaList_rereads {item : Reader α} {stop : List Token → Prop}
    (hstop : ∀ ts, stop (comma :: ts)) {rows : List (List Token)} {xs : List α}
    (h : List.Forall₂ (Rereads item stop) rows xs) (hne : rows ≠ []) :
    Rereads (commaList item) (fun ts => stop ts ∧ ts.head?.any (·.isMark ",") = false)
      ([comma].intercalate rows) xs := by
  intro rest hend
  have hrow : Row (·.isMark ",") item stop ([comma].intercalate rows) xs :=
    row_intercalate rfl hstop h hne
  have hlen := hrow.length_le
  rw [commaList, run_bind_ok]
  refine ⟨_, _, run_get_ok.mpr ⟨rfl, rfl⟩, ?_⟩
  apply hrow.rereads _ rest hend
  simp only [List.length_append]
  omega

theorem exists_rows {item : Reader α} {stop : List Token → Prop} {ss : List String} {xs : List α}
    (h : List.Forall₂ (Spelled anyFirst item stop) ss xs) :
    ∃ rows, List.Forall₂ Spells ss rows ∧ List.Forall₂ (Rereads item stop) rows xs := by
  induction h with
  | nil => exact ⟨[], List.Forall₂.nil, List.Forall₂.nil⟩
  | cons hx hxs ih =>
    obtain ⟨t, row, -, hrow, hread⟩ := hx
    obtain ⟨rows, hrows, hreads⟩ := ih
    exact ⟨(t :: row) :: rows, List.Forall₂.cons hrow hrows, List.Forall₂.cons hread hreads⟩

/-- Texts with commas between them are read as the items that they are read as one by one. -/
theorem commaList_of_texts {first : Token → Prop} {item : Reader α} {stop : List Token → Prop}
    {s : String} {ss : List String} {x : α} {xs : List α} (hstop : ∀ ts, stop (comma :: ts))
    (hx : Spelled first item stop s x) (hxs : List.Forall₂ (Spelled anyFirst item stop) ss xs) :
    Spelled first (commaList item) (fun ts => stop ts ∧ ts.head?.any (·.isMark ",") = false)
      (joined ", " (s :: ss)) (x :: xs) := by
  obtain ⟨t, row, ht, hrow, hread⟩ := hx
  obtain ⟨rows, hrows, hreads⟩ := exists_rows hxs
  have hspells := spells_joined (by simp) (List.Forall₂.cons hrow hrows) writes_joined_comma
  have hall := commaList_rereads hstop (List.Forall₂.cons hread hreads) (by simp)
  rw [List.intercalate_cons_cons_left] at hspells hall
  exact ⟨t, _, ht, hspells, hall⟩

/-- Items with commas between them are read again as they are. -/
theorem commaList_spelled {first : Token → Prop} {item : Reader α} {stop : List Token → Prop}
    {text : α → String} {x : α} {xs : List α} (hstop : ∀ ts, stop (comma :: ts))
    (hx : Spelled first item stop (text x) x)
    (hxs : ∀ y ∈ xs, Spelled anyFirst item stop (text y) y) :
    Spelled first (commaList item) (fun ts => stop ts ∧ ts.head?.any (·.isMark ",") = false)
      (joined ", " ((x :: xs).map text)) (x :: xs) := by
  apply commaList_of_texts hstop hx
  rw [List.forall₂_map_left_iff]
  exact List.forall₂_same.mpr hxs

/-- The first of several items is read from the first tokens. -/
theorem commaList_head {item : Reader α} {ts rest : List Token} {xs : List α}
    (h : (commaList item).run ts = .ok (xs, rest)) :
    ∃ x others mid, xs = x :: others ∧ item.run ts = .ok (x, mid) := by
  obtain ⟨us, mid, hget, hrun⟩ := run_bind_ok.mp h
  obtain ⟨rfl, rfl⟩ := run_get_ok.mp hget
  rw [separated] at hrun
  obtain ⟨x, after, hx, hnext⟩ := run_bind_ok.mp hrun
  obtain ⟨next, after', hpeek, hmore⟩ := run_bind_ok.mp hnext
  split at hmore
  · obtain ⟨sep, after₁, htake, hothers⟩ := run_bind_ok.mp hmore
    obtain ⟨others, after₂, hrest, hout⟩ := run_bind_ok.mp hothers
    obtain ⟨rfl, rfl⟩ := run_pure_ok.mp hout
    exact ⟨x, others, after, rfl, hx⟩
  · obtain ⟨rfl, rfl⟩ := run_pure_ok.mp hmore
    exact ⟨x, [], after, rfl, hx⟩

end Soql.Query
