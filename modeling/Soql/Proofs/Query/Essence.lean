import Soql.Proofs.Query.Values

namespace Soql.Token

open Text

/-- A name in capitals; every other token is as it is. -/
def folded (t : Token) : Token :=
  if t.kind == .name then word t.upper else t

def isOmitted (t : Token) : Bool :=
  [opening, closing, comma, word "ASC"].contains t.folded

def startsCount (t : Token) : Bool :=
  [word "LIMIT", word "OFFSET"].contains t.folded

/-- A whole number as it is written usually; every other token is as it is. -/
def valued (t : Token) : Token :=
  if t.kind == .number && t.text.toList.all isDecimal then
    ⟨.number, toString (decimalValue t.text.toList)⟩
  else t

/-- The tokens that count, with names in capitals; a number after one of the words for counts is told by
its value. -/
def essence (afterCount : Bool) : List Token → List Token
  | [] => []
  | t :: rest =>
    if t.isOmitted then essence afterCount rest
    else (if afterCount then t.folded.valued else t.folded) :: essence t.startsCount rest

@[simp]
theorem folded_word (w : String) : (word w).folded = word (word w).upper :=
  rfl

theorem folded_reserved {w : String} (hw : isReserved w = true) : (word w).folded = word w := by
  rw [folded_word, upper_reserved hw]

theorem folded_of_name {t : Token} (h : t.kind = .name) : t.folded = word t.upper := by
  rw [folded, if_pos (by simp [h])]

/-- A token with the text of a word of the language is the word, in some letter case. -/
theorem Whole.folded_eq {t : Token} (ht : t.Whole) {w : String} (hw : isReserved w = true)
    (h : t.upper = w) : t.folded = word w := by
  obtain ⟨c, body, htext, hstart⟩ := ht
  have hlist : (c :: body).map Char.toUpper = w.toList := by
    rw [← h, Token.upper, String.toList_map, htext, String.toList_ofList]
  have hfirst : isIdentFirst c = true := by
    simp only [isReserved, isIdent, ← hlist, List.map_cons, Bool.and_eq_true] at hw
    rw [← (toUpper_kinds c).1]
    exact hw.1.1
  rw [start_of_identFirst hfirst] at hstart
  obtain ⟨n, -, hkind⟩ := Option.map_eq_some_iff.mp hstart
  have hname : t.kind = .name := by
    injection hkind with hkind
    injection hkind with hkind
    exact hkind.symm
  rw [folded_of_name hname, h]

theorem essence_omitted {t : Token} (h : t.isOmitted = true) {afterCount : Bool} {ts : List Token} :
    essence afterCount (t :: ts) = essence afterCount ts := by
  rw [essence, if_pos h]

theorem essence_kept {t : Token} (h : ¬t.isOmitted = true) {afterCount : Bool} {ts : List Token} :
    essence afterCount (t :: ts) =
      (if afterCount then t.folded.valued else t.folded) :: essence t.startsCount ts := by
  rw [essence, if_neg h]

theorem kept_number (m : String) : ¬isOmitted ⟨.number, m⟩ = true := by
  simp [isOmitted, folded, opening, closing, comma, word]

theorem startsCount_number (m : String) : startsCount ⟨.number, m⟩ = false := by
  simp [startsCount, folded, word]

theorem kept_of_startsCount {t : Token} (h : t.startsCount = true) : ¬t.isOmitted = true := by
  simp only [startsCount, List.contains_cons, List.contains_nil, Bool.or_false, Bool.or_eq_true, beq_iff_eq] at h
  rw [isOmitted]
  rcases h with h | h <;> rw [h] <;> decide

inductive Alike : List Token → List Token → Prop
  | nil : Alike [] []
  | omittedLeft {t : Token} {ts us : List Token} (ht : t.isOmitted = true) (h : Alike ts us) : Alike (t :: ts) us
  | omittedRight {u : Token} {ts us : List Token} (hu : u.isOmitted = true) (h : Alike ts us) : Alike ts (u :: us)
  | both {t u : Token} {ts us : List Token} (htu : t.folded = u.folded) (h : Alike ts us) :
    Alike (t :: ts) (u :: us)
  | counted {t u : Token} {m n : String} {ts us : List Token} (htu : t.folded = u.folded)
    (ht : t.startsCount = true) (hvalue : valued ⟨.number, m⟩ = valued ⟨.number, n⟩) (h : Alike ts us) :
    Alike (t :: ⟨.number, m⟩ :: ts) (u :: ⟨.number, n⟩ :: us)

namespace Alike

variable {ts us ts' us' : List Token}

theorem refl (ts : List Token) : Alike ts ts := by
  induction ts with
  | nil => exact .nil
  | cons t ts ih => exact .both rfl ih

theorem append (h : Alike ts us) (h' : Alike ts' us') : Alike (ts ++ ts') (us ++ us') := by
  induction h with
  | nil => exact h'
  | omittedLeft ht _ ih => exact .omittedLeft ht ih
  | omittedRight hu _ ih => exact .omittedRight hu ih
  | both htu _ ih => exact .both htu ih
  | counted htu ht hvalue _ ih => exact .counted htu ht hvalue ih

/-- A word of the language, in whichever letter case, is alike to itself. -/
theorem word_cons {t : Token} (ht : t.Whole) {w : String} (hw : isReserved w = true) (hupper : t.upper = w)
    (h : Alike ts us) : Alike (t :: ts) (word w :: us) := by
  refine .both ?_ h
  rw [ht.folded_eq hw hupper, folded_reserved hw]

/-- Rows that are alike have the same essence, wherever they stand. -/
theorem essence_eq (h : Alike ts us) (afterCount : Bool) : essence afterCount ts = essence afterCount us := by
  induction h generalizing afterCount with
  | nil => rfl
  | omittedLeft ht _ ih => rw [essence_omitted ht, ih]
  | omittedRight hu _ ih => rw [essence_omitted hu, ih]
  | @both t u _ _ htu _ ih =>
    -- What is omitted and what a count follows are told by the tokens in capitals.
    have hcount : t.startsCount = u.startsCount := by rw [startsCount, startsCount, htu]
    by_cases ht : t.isOmitted = true
    · have hu : u.isOmitted = true := by rwa [isOmitted, ← htu]
      rw [essence_omitted ht, essence_omitted hu, ih]
    · have hu : ¬u.isOmitted = true := by rwa [isOmitted, ← htu]
      rw [essence_kept ht, essence_kept hu, htu, hcount, ih]
  | @counted t u m n _ _ htu ht hvalue _ ih =>
    have hu : u.startsCount = true := by rwa [startsCount, ← htu]
    have hnumber : ∀ s, folded ⟨.number, s⟩ = ⟨.number, s⟩ := fun _ => rfl
    rw [essence_kept (kept_of_startsCount ht), essence_kept (kept_of_startsCount hu), htu, ht, hu,
      essence_kept (kept_number m), essence_kept (kept_number n), if_pos rfl, if_pos rfl, hnumber, hnumber, hvalue,
      startsCount_number, startsCount_number, ih]

end Alike

end Soql.Token
