import Mathlib.Data.List.Infix
import Mathlib.Tactic.Common
import Soql.Text.Quoted

namespace Soql.Text

section Replaced

variable {old new : List Char}

/-- The length of a text whose occurrences of another one are exchanged, by their number. -/
theorem exists_length_replaceFrom (hold : old ≠ []) {covered : Nat} {s : List Char} (hcovered : covered ≤ s.length) :
    ∃ n, (replaceFrom old new covered s).length + n * old.length + covered = s.length + n * new.length ∧
      (old <:+: s.drop covered → 0 < n) := by
  have hpos : 0 < old.length := List.length_pos_iff.mpr hold
  fun_induction replaceFrom old new covered s with
  | case1 covered =>
    refine ⟨0, by simpa using hcovered, ?_⟩
    intro hfound
    rw [List.drop_nil, List.infix_nil] at hfound
    exact absurd hfound hold
  | case2 covered c rest ih =>
    obtain ⟨n, hlength, hfound⟩ := ih (Nat.le_of_succ_le_succ hcovered)
    refine ⟨n, ?_, hfound⟩
    rw [List.length_cons]
    omega
  | case3 c rest hstart ih =>
    have hfits := (List.isPrefixOf_iff_prefix.mp hstart).length_le
    rw [List.length_cons] at hfits
    obtain ⟨n, hlength, -⟩ := ih (by omega)
    refine ⟨n + 1, ?_, fun _ => Nat.zero_lt_succ n⟩
    rw [List.length_append, List.length_cons, Nat.succ_mul, Nat.succ_mul]
    omega
  | case4 c rest hstart ih =>
    obtain ⟨n, hlength, hfound⟩ := ih (Nat.zero_le _)
    refine ⟨n, ?_, ?_⟩
    · rw [List.length_cons, List.length_cons]
      omega
    · intro hinside
      rw [List.drop_zero, List.infix_cons_iff] at hinside
      exact hfound (hinside.resolve_left fun h => hstart (List.isPrefixOf_iff_prefix.mpr h))

/-- Where a text does not occur, nothing is exchanged. -/
theorem replaceAll_of_not_infix {s : List Char} (h : ¬old <:+: s) : replaceAll old new s = s := by
  unfold replaceAll
  induction s with
  | nil => rfl
  | cons c s ih =>
    rw [List.infix_cons_iff, not_or] at h
    rw [replaceFrom, if_neg fun hstart => h.1 (List.isPrefixOf_iff_prefix.mp hstart), ih h.2]

/-- A text in which another one is exchanged stays as it is just when that one does not occur. -/
theorem replaceAll_eq_self_iff (hold : old ≠ []) (hne : old ≠ new) {s : List Char} :
    replaceAll old new s = s ↔ ¬old <:+: s := by
  refine ⟨?_, replaceAll_of_not_infix⟩
  intro hsame hinside
  obtain ⟨n, hlength, hpos⟩ := @exists_length_replaceFrom old new hold 0 s (Nat.zero_le _)
  have hn := hpos hinside
  rw [← replaceAll, hsame] at hlength
  have hlengths : old.length = new.length := Nat.eq_of_mul_eq_mul_left hn (by omega)
  -- Of texts of one length the new one would have to stand where the old one does.
  clear hlength hpos
  unfold replaceAll at hsame
  induction s with
  | nil => exact hold (List.infix_nil.mp hinside)
  | cons c s ih =>
    rw [replaceFrom] at hsame
    split at hsame
    · rename_i hstart
      rw [List.isPrefixOf_iff_prefix] at hstart
      have hnew : new <+: c :: s := ⟨_, hsame⟩
      exact hne (List.prefix_of_prefix_length_le hstart hnew hlengths.le |>.eq_of_length hlengths)
    · rename_i hstart
      rw [List.isPrefixOf_iff_prefix] at hstart
      exact ih (List.cons.inj hsame).2 ((List.infix_cons_iff.mp hinside).resolve_left hstart)

end Replaced

theorem escaped_cons (c : Char) (s : List Char) : replaceAll ['\x27'] ['\\', '\x27'] (c :: s) =
    (if c = '\x27' then ['\\', '\x27'] else [c]) ++ replaceAll ['\x27'] ['\\', '\x27'] s := by
  by_cases hc : c = '\x27'
  · rw [hc]
    rfl
  · have hstart : ¬['\x27'].isPrefixOf (c :: s) = true := by simpa using Ne.symm hc
    rw [replaceAll, replaceFrom, if_neg hstart, if_neg hc]
    rfl

/-- Escaping loses nothing: no escaped text begins with a quote. -/
theorem escaped_injective {s t : List Char}
    (h : replaceAll ['\x27'] ['\\', '\x27'] s = replaceAll ['\x27'] ['\\', '\x27'] t) : s = t := by
  -- No written text begins with a bare quote.
  have hhead (u rest : List Char) : replaceAll ['\x27'] ['\\', '\x27'] u ≠ '\x27' :: rest := by
    cases u with
    | nil => exact (List.cons_ne_nil _ _).symm
    | cons c u =>
      rw [escaped_cons]
      split
      · simp
      · rename_i hc
        simp [hc]
  induction s generalizing t with
  | nil =>
    cases t with
    | nil => rfl
    | cons d t =>
      rw [escaped_cons] at h
      split at h <;> simp [replaceAll, replaceFrom] at h
  | cons c s ih =>
    cases t with
    | nil =>
      rw [escaped_cons] at h
      split at h <;> simp [replaceAll, replaceFrom] at h
    | cons d t =>
      rw [escaped_cons, escaped_cons] at h
      by_cases hc : c = '\x27'
      · by_cases hd : d = '\x27'
        · rw [if_pos hc, if_pos hd] at h
          rw [hc, hd, ih (List.append_cancel_left h)]
        · rw [if_pos hc, if_neg hd] at h
          obtain ⟨-, hrest⟩ := List.cons.inj h
          exact absurd hrest.symm (hhead t _)
      · by_cases hd : d = '\x27'
        · rw [if_neg hc, if_pos hd] at h
          obtain ⟨-, hrest⟩ := List.cons.inj h
          exact absurd hrest (hhead s _)
        · rw [if_neg hc, if_neg hd] at h
          obtain ⟨hcd, hrest⟩ := List.cons.inj h
          rw [hcd, ih hrest]

theorem asLiteral_injective {a b : String} (h : asLiteral a = asLiteral b) : a = b := by
  unfold asLiteral at h
  rw [List.cons_append, List.cons_append] at h
  exact String.toList_injective (escaped_injective (List.append_cancel_right (List.cons.inj h).2))

end Soql.Text
