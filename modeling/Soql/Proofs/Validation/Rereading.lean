import Soql.Proofs.Validation.Contract
import Soql.Proofs.Validation.Suits

namespace Soql.Validator

open Text Query

variable {context : Context} {v : Validator} {q : Query}

theorem applyWanted_sturdy (hcontext : context.isWritable = true) (hlimits : v.isWritable = true)
    (h : q.Sturdy) : (Action.applyAll q (Repair.wantedActions (v.validate q context))).Sturdy := by
  apply Action.applyAll_sturdy h
  intro a ha
  obtain ⟨m, hm, haction⟩ := List.mem_filterMap.mp (List.mem_eraseDups.mp ha)
  exact validate_suits hlimits hcontext h m (List.mem_filter.mp hm).1 a haction

/-- Corrections that fit can be written with the query that they make. -/
theorem isWritten_of_fits {actions : List Action} (h : ∀ a ∈ actions, a.Fits) {candidate : Query}
    (hcandidate : candidate.Sturdy) : Repair.isWritten actions candidate = true := by
  rw [Repair.isWritten, isShort_of_legible hcandidate.clauses.legible, Bool.true_and, List.all_eq_true]
  intro a ha
  have hfits := h a ha
  cases a with
  | applyLimit limit =>
    obtain ⟨count, rfl, hcount⟩ := hfits
    exact isShort_of_isCount hcount
  | _ => rfl

variable (hcontext : context.isWritable = true) (hlimits : v.isWritable = true)

include hcontext hlimits

/-- There is nothing in the messages about a sturdy query for which correcting it fails. -/
theorem fault_sturdy {p : Repair.Progress} (h : p.query.Sturdy)
    (hmessages : p.messages = v.validate p.query context)
    (f : Failure) : ¬Repair.Fault p f := by
  have hsuits := validate_suits hlimits hcontext h
  rw [← hmessages] at hsuits
  have hwanted : ∀ a ∈ Repair.wantedActions p.messages, a.Fits := by
    intro a ha
    obtain ⟨m, hm, haction⟩ := List.mem_filterMap.mp (List.mem_eraseDups.mp ha)
    exact hsuits m (List.mem_filter.mp hm).1 a haction
  -- A fault is a backslash in a new path, or a number that is too long, and what suits has neither.
  intro hfault
  cases hfault with
  | unreadable wanted unreadable =>
    obtain ⟨new, hnew, hbackslash⟩ := unreadable.backslash
    exact (hwanted _ wanted).plain new hnew hbackslash
  | pass long =>
    rw [Repair.Progress.candidate, isWritten_of_fits hwanted (Action.applyAll_sturdy h hwanted)] at long
    cases long
  | limit asked long =>
    obtain ⟨m, hm, haction⟩ := List.mem_map.mp (List.mem_of_mem_head? asked)
    have hfits := hsuits m (List.mem_filter.mp hm).1 _ haction
    rw [isWritten_of_fits (List.forall_mem_singleton.mpr hfits) (Action.apply_sturdy h hfits)] at long
    cases long

/-- A sturdy query can be corrected, and is sturdy however often it is. -/
theorem corrected_sturdy (h : q.Sturdy) (bounds : Repair.Bounds) (used : Int) :
    ∃ o, corrected context v bounds q used = .ok o ∧ o.query.Sturdy := by
  have hpass : ∀ q : Query, q.Sturdy → (Action.applyAll q (Repair.wantedActions (v.validate q context))).Sturdy :=
    fun q hq => applyWanted_sturdy hcontext hlimits hq
  obtain ⟨o, ho⟩ := Repair.run_ok (f := fun q => v.validate q context) (P := Query.Sturdy) hpass
    (fun p hp hmessages => fault_sturdy hcontext hlimits hp hmessages) bounds h used ()
  refine ⟨o, ho, ?_⟩
  apply Repair.run_keeps hpass _ h ho
  intro q hq m hm a ha
  exact Action.apply_sturdy hq (validate_suits hlimits hcontext hq m hm a ha)

omit hcontext hlimits

/-- What correcting a tidy query ends with is read again, the same, where the schema and the limits can
be written in a query. -/
theorem corrected_rereads {text : String} (h : parse text = .ok q) (htidy : q.isTidy = true)
    (hcontext : context.isWritable = true) (hlimits : v.isWritable = true) (bounds : Repair.Bounds) (used : Int) :
    ∃ o, corrected context v bounds q used = .ok o ∧ parse o.query.render = .ok o.query := by
  have hsturdy : q.Sturdy := Query.sturdy_of_isTidy h htidy
  obtain ⟨o, ho, hcorrected⟩ := corrected_sturdy hcontext hlimits hsturdy bounds used
  exact ⟨o, ho, hcorrected.rereads⟩

/-- A name loses its keyword, a group is added, and a field of the children is exchanged. -/
theorem corrected_rereads_children : ∃ q o, parse
      "select N, count(Id) as total, (select Ids from Cs) from A where N in ('a', 'b')" = .ok q ∧
    q.isTidy = true ∧ parentAndChild.isWritable = true ∧ isWritable {} = true ∧
    corrected parentAndChild {} {} q 0 = .ok o ∧
    o.query.render = "SELECT N, count(Id) total, (SELECT Id FROM Cs) FROM A WHERE N IN ('a', 'b') GROUP BY N" ∧
    parse o.query.render = .ok o.query := by
  obtain ⟨q, hq, hboth⟩ := exists_ok_of_any (r := parse
      "select N, count(Id) as total, (select Ids from Cs) from A where N in ('a', 'b')")
    (p := fun q => q.isTidy && (corrected parentAndChild {} {} q 0).toOption.any (·.query.render ==
      "SELECT N, count(Id) total, (SELECT Id FROM Cs) FROM A WHERE N IN ('a', 'b') GROUP BY N")) (by decide +kernel)
  rw [Bool.and_eq_true] at hboth
  obtain ⟨o, ho, hrender⟩ := exists_ok_of_any hboth.2
  rw [beq_iff_eq] at hrender
  have hcontext : parentAndChild.isWritable = true := by decide +kernel
  have hlimits : isWritable {} = true := by decide
  obtain ⟨o', ho', hread⟩ := corrected_rereads hq hboth.1 hcontext hlimits {} 0
  obtain rfl := Except.ok.inj (ho'.symm.trans ho)
  exact ⟨q, o', hq, hboth.1, hcontext, hlimits, ho, hrender, hread⟩

/-- A name that loses its keyword is taken for the next clause, and the query is not read again. -/
theorem corrected_not_reread : ∃ q o, parse "SELECT COUNT(Id) AS Limit FROM A" = .ok q ∧
    corrected parentAndChild {} {} q 0 = .ok o ∧ o.status = .valid ∧
    ∀ q', parse o.query.render ≠ .ok q' := by
  obtain ⟨q, hq, hcorrected⟩ := exists_ok_of_any (r := parse "SELECT COUNT(Id) AS Limit FROM A")
    (p := fun q => (corrected parentAndChild {} {} q 0).toOption.any fun o => o.status == .valid &&
      (parse o.query.render).toOption.isNone) (by decide +kernel)
  obtain ⟨o, ho, hboth⟩ := exists_ok_of_any hcorrected
  rw [Bool.and_eq_true, beq_iff_eq] at hboth
  refine ⟨q, o, hq, ho, hboth.1, ?_⟩
  intro q' hread
  rw [hread] at hboth
  cases hboth.2

end Soql.Validator
