import Soql.Proofs.Text.Lower
import Soql.Proofs.Text.Rename
import Soql.Proofs.Text.Runs

/-!
Exchanging paths in texts of any characters. What joins a path stands in whole runs; each run is exchanged
as a whole, and only if it is the path for a search that ignores case. So several exchanges of different
paths, none of which brings in another one, can be made in any order and as often as one likes.
-/

namespace Soql.Text

open Token

section Folding

-- Apart from the sign of the unit Kelvin, every row moves its code points beyond ASCII, and none to the two
-- small letters that a search takes for ASCII letters.
theorem lowerRows_apart : ∀ row ∈ lowerRows, row = (0x212a, 0x212a, 1, -8383) ∨
    ((0x80 : Int) ≤ row.1 + row.2.2.2 ∧
      ((row.2.1 : Int) + row.2.2.2 < 0x131 ∨ (0x131 : Int) < row.1 + row.2.2.2) ∧
      ((row.2.1 : Int) + row.2.2.2 < 0x17f ∨ (0x17f : Int) < row.1 + row.2.2.2)) := by
  decide +kernel

theorem foldPairs_ascii : ∀ pair ∈ foldPairs, pair.1 = 0x131 ∨ pair.1 = 0x17f ∨ 0x80 ≤ pair.2 := by
  decide +kernel

/-- The code points beyond ASCII whose lower case is an ASCII letter, or a letter that is taken for one. -/
theorem shifted_lowerRows_ascii {n : Nat} (hn : 0x80 ≤ n)
    (h : shifted lowerRows n < 0x80 ∨ shifted lowerRows n = 0x131 ∨ shifted lowerRows n = 0x17f) :
    n = 0x212a ∨ n = 0x131 ∨ n = 0x17f := by
  unfold shifted at h
  split at h
  case h_1 low high step shift hrow =>
    have hfound := List.find?_some hrow
    simp only [Bool.and_eq_true, decide_eq_true_eq] at hfound
    obtain ⟨⟨hlow, hhigh⟩, -⟩ := hfound
    rcases lowerRows_apart _ (List.mem_of_find?_eq_some hrow) with hkelvin | ⟨habove, hdotless, hlong⟩
    · obtain ⟨rfl, rfl, -⟩ : low = 0x212a ∧ high = 0x212a ∧ _ := by simpa using hkelvin
      exact .inl (Nat.le_antisymm hhigh hlow)
    · dsimp only at habove hdotless hlong
      omega
  case h_2 => omega

/-- The characters beyond ASCII that a search takes for ASCII characters. -/
theorem eq_of_fold {c : Char} (hc : 0x80 ≤ c.toNat) (h : (fold c).toNat < 0x80) (hne : (fold c).toNat ≠ 0) :
    c.toNat = 0x130 ∨ c.toNat = 0x212a ∨ c.toNat = 0x131 ∨ c.toNat = 0x17f := by
  by_cases hdotted : c.toNat = 0x130
  · exact .inl hdotted
  have hlow : lowerChar c = Char.ofNat (shifted lowerRows c.toNat) := by
    rw [lowerChar, if_neg (by omega), if_neg (by simpa using hdotted)]
  unfold fold at h hne
  rw [hlow] at h hne
  refine .inr (shifted_lowerRows_ascii hc ?_)
  rcases toNat_ofNat_or (shifted lowerRows c.toNat) with hcode | hcode
  · cases hpair : foldPairs.lookup (shifted lowerRows c.toNat) with
    | some m =>
      simp only [hcode, hpair] at h hne
      have hmem := foldPairs_ascii _ (mem_of_lookup hpair)
      have hm := toNat_ofNat_or m
      dsimp only at hmem
      omega
    | none =>
      simp only [hcode, hpair] at h
      exact .inl h
  · -- No pair begins with the code point of no character.
    have hnone : foldPairs.lookup 0 = none := by decide +kernel
    simp only [hcode, hnone] at hne
    exact absurd rfl hne

theorem joinsPath_of_fold {c : Char} (hc : 0x80 ≤ c.toNat) (h : (fold c).toNat < 0x80) (hne : (fold c).toNat ≠ 0) :
    joinsPath c = true := by
  have hchar : c = Char.ofNat c.toNat := (Char.ofNat_toNat c).symm
  rcases eq_of_fold hc h hne with hcode | hcode | hcode | hcode <;> rw [hchar, hcode] <;> decide +kernel

theorem fold_ascii {c : Char} (hc : c.toNat < 128) : fold c = c.toLower := by
  have hall := of_ascii (p := fun c => fold c == c.toLower) (by decide) hc
  exact eq_of_beq hall

theorem fold_of_pathChar {d : Char} (hd : isPathChar d = true) : (fold d).toNat < 128 ∧ (fold d).toNat ≠ 0 := by
  have hascii := toNat_lt_of_pathChar hd
  have hall := of_ascii (p := fun d => decide (d.toLower.toNat < 128) && (!isPathChar d || d.toLower.toNat != 0))
    (by decide) hascii
  rw [fold_ascii hascii]
  simpa [hd] using hall

theorem sameFolded_iff {a b : Char} : sameFolded a b = true ↔ fold a = fold b := by
  rw [sameFolded, Bool.or_eq_true, beq_iff_eq, beq_iff_eq]
  refine ⟨?_, .inr⟩
  rintro (rfl | h)
  · rfl
  · exact h

/-- What a search takes for a character of a path joins a path. -/
theorem joinsPath_of_sameFolded {d c : Char} (hd : isPathChar d = true) (h : sameFolded d c = true) :
    joinsPath c = true := by
  have hascii := toNat_lt_of_pathChar hd
  -- In ASCII what joins no path is told apart by every search; beyond it there are four characters to look at.
  by_cases hc : c.toNat < 128
  · rw [joinsPath_eq hc]
    by_contra hnot
    have hparts : parts c = true := by
      rw [Bool.not_eq_true] at hnot
      simp [parts, hc, hnot]
    rw [sameFolded_of_parts hd hparts] at h
    cases h
  · have hlow := fold_of_pathChar hd
    rw [sameFolded_iff] at h
    exact joinsPath_of_fold (by omega) (h ▸ hlow.1) (h ▸ hlow.2)

end Folding

def endsRun (c : Char) : Bool :=
  !joinsPath c

def SameRun (path r : List Char) : Prop :=
  path.map fold = r.map fold

instance (path r : List Char) : Decidable (SameRun path r) :=
  inferInstanceAs (Decidable (_ = _))

theorem beginsFolded_iff {path s : List Char} : beginsFolded path s = true ↔
    path.map fold = (s.take path.length).map fold ∧ path.length ≤ s.length := by
  induction path generalizing s with
  | nil => simp [beginsFolded]
  | cons a path ih =>
    cases s with
    | nil => simp [beginsFolded]
    | cons b s =>
      rw [beginsFolded, Bool.and_eq_true, sameFolded_iff, ih]
      simp [and_assoc]

def exchangeRun (path new r : List Char) : List Char :=
  if SameRun path r then new else r

section Runs

variable {path : List Char} {new : List Char → List Char} (hpath : PathText path)

include hpath

/-- Behind what joins a path nothing is exchanged, and a separator is no such thing. -/
theorem renameFrom_stops {s : List Char} (hs : Stops endsRun s) (free : Bool) :
    renameFrom path new 0 free s = renameFrom path new 0 true s := by
  obtain ⟨a, others, rfl, -⟩ := id hpath.first
  cases s with
  | nil => rw [renameFrom_nil hpath, renameFrom_nil hpath]
  | cons c s =>
    have hnone (free : Bool) : pathStands (a :: others) free (c :: s) = false := by
      have hsep : joinsPath c = false := by simpa [endsRun] using hs c rfl
      have hdiffer : sameFolded a c = false := by
        rw [← Bool.not_eq_true]
        intro hsame
        rw [joinsPath_of_sameFolded (hpath.chars a List.mem_cons_self) hsame] at hsep
        cases hsep
      simp [pathStands, beginsFolded, hdiffer]
    rw [renameFrom_fails (hnone free), renameFrom_fails (hnone true)]

theorem renameFrom_sep {c : Char} (hc : endsRun c = true) (s : List Char) :
    renameFrom path new 0 true (c :: s) = c :: renameFrom path new 0 true s := by
  obtain ⟨a, others, rfl, -⟩ := id hpath.first
  have hnone : renameFrom (a :: others) new 0 false (c :: s) =
      c :: renameFrom (a :: others) new 0 (!joinsPath c) s := renameFrom_fails rfl
  rw [← renameFrom_stops hpath (.cons hc s) false, hnone]
  rw [endsRun] at hc
  rw [hc]

/-- Behind a character of the same run nothing is exchanged up to its end. -/
theorem renameFrom_inside {r s : List Char} (hr : ∀ c ∈ r, endsRun c = false) (hs : Stops endsRun s) :
    renameFrom path new 0 false (r ++ s) = r ++ renameFrom path new 0 true s := by
  obtain ⟨a, others, rfl, -⟩ := id hpath.first
  induction r with
  | nil => exact renameFrom_stops hpath hs false
  | cons c r ih =>
    obtain ⟨hc, hr⟩ := List.forall_mem_cons.mp hr
    rw [endsRun] at hc
    rw [List.cons_append, renameFrom_fails rfl, hc, ih hr, List.cons_append]

theorem renameFrom_over {r s : List Char} (hs : Stops endsRun s) (free : Bool) :
    renameFrom path new r.length free (r ++ s) = renameFrom path new 0 true s := by
  induction r generalizing free with
  | nil => exact renameFrom_stops hpath hs free
  | cons c r ih =>
    rw [List.cons_append, List.length_cons, renameFrom]
    exact ih _

omit hpath in
/-- A path stands where a text begins with it and goes on with what does not join it. -/
theorem pathStands_iff {s : List Char} : pathStands path true s = true ↔
    (SameRun path (s.take path.length) ∧ path.length ≤ s.length) ∧ Stops endsRun (s.drop path.length) := by
  unfold pathStands
  rw [Bool.true_and, Bool.and_eq_true, beginsFolded_iff]
  refine and_congr Iff.rfl ?_
  cases s.drop path.length with
  | nil => exact iff_of_true rfl .nil
  | cons c rest => exact ⟨fun hc => .cons hc rest, fun hstops => hstops c rfl⟩

omit hpath in
/-- A path does not end inside a run: the next character of the run would join it. -/
theorem length_le_of_stops {r s : List Char} (hr : ∀ c ∈ r, endsRun c = false)
    (hstops : Stops endsRun ((r ++ s).drop path.length)) : r.length ≤ path.length := by
  by_contra hshort
  have hlt : path.length < r.length := Nat.lt_of_not_le hshort
  have hdrop : (r ++ s).drop path.length = r[path.length] :: (r.drop (path.length + 1) ++ s) := by
    rw [List.drop_append_of_le_length (Nat.le_of_lt hlt), List.drop_eq_getElem_cons hlt, List.cons_append]
  rw [hdrop] at hstops
  have hnext := hr _ (List.getElem_mem hlt)
  rw [hstops _ rfl] at hnext
  cases hnext

/-- A path does not reach over the separator after a run. -/
theorem length_le_of_sameRun {r s : List Char} (hs : Stops endsRun s)
    (hsame : SameRun path ((r ++ s).take path.length)) (hle : path.length ≤ (r ++ s).length) :
    path.length ≤ r.length := by
  by_contra hlong
  have hgt : r.length < path.length := Nat.lt_of_not_le hlong
  cases s with
  | nil => exact hlong (by simpa using hle)
  | cons c s =>
    -- The character of the path at the separator's place would have to be taken for the separator.
    have hchar := congrArg (·[r.length]?) hsame
    have htake : r.length < ((r ++ c :: s).take path.length).length := by simp; omega
    simp only [List.getElem?_map, List.getElem?_eq_getElem hgt, List.getElem?_eq_getElem htake,
      Option.map_some, Option.some.injEq, List.getElem_take] at hchar
    have hbound : r.length < (r ++ c :: s).length := by simp
    have hmiddle : (r ++ c :: s)[r.length] = c := by simp
    rw [hmiddle, ← sameFolded_iff] at hchar
    have hjoins := joinsPath_of_sameFolded (hpath.chars _ (List.getElem_mem hgt)) hchar
    have hsep := hs c rfl
    rw [endsRun, hjoins] at hsep
    cases hsep

/-- A path stands at the start of a run just when it is the run. -/
theorem pathStands_run {r s : List Char} (hr : ∀ c ∈ r, endsRun c = false) (hs : Stops endsRun s) :
    pathStands path true (r ++ s) = true ↔ SameRun path r := by
  rw [pathStands_iff]
  constructor
  · rintro ⟨⟨hsame, hle⟩, hstops⟩
    have hlength : path.length = r.length :=
      Nat.le_antisymm (length_le_of_sameRun hpath hs hsame hle) (length_le_of_stops hr hstops)
    rwa [hlength, List.take_left] at hsame
  · intro hsame
    have hlength : path.length = r.length := by simpa using congrArg List.length hsame
    rw [hlength, List.take_left, List.drop_left, List.length_append]
    exact ⟨⟨hsame, Nat.le_add_right _ _⟩, hs⟩

/-- Each run is exchanged as a whole. -/
theorem renameFrom_run {target r s : List Char} (hne : r ≠ []) (hr : ∀ c ∈ r, endsRun c = false)
    (hs : Stops endsRun s) :
    renameFrom path (fun _ => target) 0 true (r ++ s) =
      exchangeRun path target r ++ renameFrom path (fun _ => target) 0 true s := by
  obtain ⟨a, others, rfl, -⟩ := id hpath.first
  obtain ⟨c, r, rfl⟩ := List.exists_cons_of_ne_nil hne
  have hstands := pathStands_run hpath hr hs
  unfold exchangeRun
  split
  -- Where the path stands, the rest of the run is covered; where it does not, no path begins within the run.
  · rename_i hsame
    have hlength : others.length = r.length := by simpa using congrArg List.length hsame
    rw [List.cons_append] at hstands ⊢
    rw [renameFrom_stands (hstands.mpr hsame), hlength, renameFrom_over hpath hs]
  · rename_i hother
    obtain ⟨hc, hrest⟩ := List.forall_mem_cons.mp hr
    rw [endsRun] at hc
    rw [List.cons_append] at hstands ⊢
    rw [renameFrom_fails (by rw [← Bool.not_eq_true, hstands]; exact hother), hc, renameFrom_inside hpath hrest hs]
    rfl

end Runs

abbrev Exchange := List Char × List Char

def renameAll (es : List Exchange) (s : List Char) : List Char :=
  es.foldl (fun s e => renameFrom e.1 (fun _ => e.2) 0 true s) s

def exchangeAll (es : List Exchange) (r : List Char) : List Char :=
  es.foldl (fun r e => exchangeRun e.1 e.2 r) r

def Exchangeables (es : List Exchange) : Prop :=
  ∀ e ∈ es, PathText e.1 ∧ PathText e.2

def Independent (es : List Exchange) : Prop :=
  ∀ e ∈ es, ∀ f ∈ es, e ≠ f → ¬SameRun e.1 f.1 ∧ ¬SameRun f.1 e.2

section Several

theorem renameAll_nil {es : List Exchange} (hes : Exchangeables es) : renameAll es [] = [] := by
  induction es with
  | nil => rfl
  | cons e es ih =>
    obtain ⟨he, hrest⟩ := List.forall_mem_cons.mp hes
    rw [renameAll, List.foldl_cons, renameFrom_nil he.1]
    exact ih hrest

theorem renameAll_sep {es : List Exchange} (hes : Exchangeables es) {c : Char} (hc : endsRun c = true)
    (s : List Char) : renameAll es (c :: s) = c :: renameAll es s := by
  induction es generalizing s with
  | nil => rfl
  | cons e es ih =>
    obtain ⟨he, hrest⟩ := List.forall_mem_cons.mp hes
    rw [renameAll, List.foldl_cons, renameFrom_sep he.1 hc]
    exact ih hrest _

/-- A run is exchanged for a run. -/
theorem exchangeRun_run {e : Exchange} (he : PathText e.2) {r : List Char} (hne : r ≠ [])
    (hr : ∀ c ∈ r, endsRun c = false) :
    exchangeRun e.1 e.2 r ≠ [] ∧ ∀ c ∈ exchangeRun e.1 e.2 r, endsRun c = false := by
  unfold exchangeRun
  split
  · obtain ⟨a, others, heq, -⟩ := he.first
    refine ⟨by simp [heq], ?_⟩
    intro c hc
    rw [endsRun, joinsPath_of_pathChar (he.chars c hc)]
    rfl
  · exact ⟨hne, hr⟩

theorem stops_renameAll {es : List Exchange} (hes : Exchangeables es) {s : List Char} (hs : Stops endsRun s) :
    Stops endsRun (renameAll es s) := by
  cases s with
  | nil =>
    rw [renameAll_nil hes]
    exact .nil
  | cons c s =>
    rw [renameAll_sep hes (hs c rfl)]
    exact .cons (hs c rfl) _

theorem renameAll_run {es : List Exchange} (hes : Exchangeables es) {r s : List Char} (hne : r ≠ [])
    (hr : ∀ c ∈ r, endsRun c = false) (hs : Stops endsRun s) :
    renameAll es (r ++ s) = exchangeAll es r ++ renameAll es s := by
  induction es generalizing r s with
  | nil => rfl
  | cons e es ih =>
    obtain ⟨he, hrest⟩ := List.forall_mem_cons.mp hes
    obtain ⟨hne', hr'⟩ := exchangeRun_run he.2 hne hr
    have hfirst : Exchangeables [e] := List.forall_mem_singleton.mpr he
    have hlater := ih hrest hne' hr' (stops_renameAll hfirst hs)
    rw [renameAll, List.foldl_cons, renameFrom_run he.1 hne hr hs]
    exact hlater

variable {es : List Exchange}

theorem exchangeAll_of_none {r : List Char} (h : ∀ e ∈ es, ¬SameRun e.1 r) : exchangeAll es r = r := by
  induction es with
  | nil => rfl
  | cons e es ih =>
    obtain ⟨he, hrest⟩ := List.forall_mem_cons.mp h
    rw [exchangeAll, List.foldl_cons, exchangeRun, if_neg he]
    exact ih hrest

/-- What an exchange has brought in stays: only the exchange itself may find it again. -/
theorem exchangeAll_new {e : Exchange} (h : ∀ f ∈ es, e ≠ f → ¬SameRun f.1 e.2) : exchangeAll es e.2 = e.2 := by
  induction es with
  | nil => rfl
  | cons f es ih =>
    obtain ⟨hf, hrest⟩ := List.forall_mem_cons.mp h
    have hsame : exchangeRun f.1 f.2 e.2 = e.2 := by
      by_cases hef : e = f
      · rw [hef, exchangeRun, ite_self]
      · rw [exchangeRun, if_neg (hf hef)]
    rw [exchangeAll, List.foldl_cons, hsame]
    exact ih hrest

/-- The exchange of a run's own path is the one that is made. -/
theorem exchangeAll_of_mem (hes : Independent es) {e : Exchange} (he : e ∈ es) {r : List Char}
    (hsame : SameRun e.1 r) : exchangeAll es r = e.2 := by
  -- Exchanges before it do not find the run, and those after it do not find what it has brought in.
  have hbrings : ∀ f ∈ es, e ≠ f → ¬SameRun f.1 e.2 := fun f hf hef => (hes e he f hf hef).2
  have hothers : ∀ f ∈ es, e ≠ f → ¬SameRun f.1 r := fun f hf hef hf' =>
    (hes e he f hf hef).1 (hsame.trans hf'.symm)
  clear hes
  induction es with
  | nil => cases he
  | cons f es ih =>
    obtain ⟨hfirst, hbrings⟩ := List.forall_mem_cons.mp hbrings
    obtain ⟨hother, hothers⟩ := List.forall_mem_cons.mp hothers
    rw [exchangeAll, List.foldl_cons]
    by_cases hef : e = f
    · rw [← hef, exchangeRun, if_pos hsame]
      exact exchangeAll_new hbrings
    · rw [exchangeRun, if_neg (hother hef)]
      have he : e ∈ es := (List.mem_cons.mp he).resolve_left hef
      exact ih he hbrings hothers

/-- Neither the order of independent exchanges nor how often they stand in a row counts. -/
theorem exchangeAll_congr (hes : Independent es) {fs : List Exchange} (hmem : ∀ e, e ∈ es ↔ e ∈ fs)
    (r : List Char) : exchangeAll es r = exchangeAll fs r := by
  have hfs : Independent fs := fun e he f hf => hes e ((hmem e).mpr he) f ((hmem f).mpr hf)
  by_cases hsome : ∃ e ∈ es, SameRun e.1 r
  · obtain ⟨e, he, hsame⟩ := hsome
    rw [exchangeAll_of_mem hes he hsame, exchangeAll_of_mem hfs ((hmem e).mp he) hsame]
  · have hnone : ∀ e ∈ es, ¬SameRun e.1 r := fun e he hsame => hsome ⟨e, he, hsame⟩
    rw [exchangeAll_of_none hnone, exchangeAll_of_none fun e he => hnone e ((hmem e).mpr he)]

theorem exchangeAll_again (hes : Independent es) (r : List Char) :
    exchangeAll es (exchangeAll es r) = exchangeAll es r := by
  by_cases hsome : ∃ e ∈ es, SameRun e.1 r
  · obtain ⟨e, he, hsame⟩ := hsome
    rw [exchangeAll_of_mem hes he hsame]
    exact exchangeAll_new fun f hf hef => (hes e he f hf hef).2
  · rw [exchangeAll_of_none fun e he hsame => hsome ⟨e, he, hsame⟩]
    exact exchangeAll_of_none fun e he hsame => hsome ⟨e, he, hsame⟩

/-- Independent exchanges can be made in any order and any number of times. The induction is on the runs of
the text, each of which is exchanged by itself. -/
theorem renameAll_congr (hpaths : Exchangeables es) (hes : Independent es) {fs : List Exchange}
    (hmem : ∀ e, e ∈ es ↔ e ∈ fs) (s : List Char) : renameAll es s = renameAll fs s := by
  have hpaths' : Exchangeables fs := fun e he => hpaths e ((hmem e).mpr he)
  induction s using runs_induction (p := endsRun) with
  | nil => rw [renameAll_nil hpaths, renameAll_nil hpaths']
  | sep c s hc ih => rw [renameAll_sep hpaths hc, renameAll_sep hpaths' hc, ih]
  | run r s hne hr hs ih =>
    rw [renameAll_run hpaths hne hr hs, renameAll_run hpaths' hne hr hs, exchangeAll_congr hes hmem, ih]

theorem exchangeAll_run (hpaths : Exchangeables es) {r : List Char} (hne : r ≠ [])
    (hr : ∀ c ∈ r, endsRun c = false) :
    exchangeAll es r ≠ [] ∧ ∀ c ∈ exchangeAll es r, endsRun c = false := by
  induction es generalizing r with
  | nil => exact ⟨hne, hr⟩
  | cons e es ih =>
    obtain ⟨he, hrest⟩ := List.forall_mem_cons.mp hpaths
    obtain ⟨hne', hr'⟩ := exchangeRun_run he.2 hne hr
    exact ih hrest hne' hr'

/-- Making independent exchanges once more changes nothing. -/
theorem renameAll_again (hpaths : Exchangeables es) (hes : Independent es) (s : List Char) :
    renameAll es (renameAll es s) = renameAll es s := by
  induction s using runs_induction (p := endsRun) with
  | nil => rw [renameAll_nil hpaths, renameAll_nil hpaths]
  | sep c s hc ih => rw [renameAll_sep hpaths hc, renameAll_sep hpaths hc, ih]
  | run r s hne hr hs ih =>
    obtain ⟨hne', hr'⟩ := exchangeAll_run hpaths hne hr
    rw [renameAll_run hpaths hne hr hs, renameAll_run hpaths hne' hr' (stops_renameAll hpaths hs),
      exchangeAll_again hes, ih]

end Several

end Soql.Text
