import Mathlib.Data.List.Perm.Subperm
import Mathlib.Data.Prod.Lex
import Mathlib.Data.String.Basic
import Soql.Context.Pruning
import Soql.Proofs.Sorting
import Soql.Schema.Sample

namespace Soql

open OrderDual (toDual)

def alwaysShown : List String :=
  "OwnerId" :: Vocabulary.coreFields

theorem isAlwaysShown_eq (f : Field) : isAlwaysShown f = decide (f.name ∈ alwaysShown) := by
  rw [Bool.eq_iff_iff]
  simp [isAlwaysShown, alwaysShown]

/-- One field is more relevant to some terms than another, or as relevant under an earlier name. -/
def Field.Outranks (terms : List String) (a b : Field) : Prop :=
  b.relevance terms shortestTerm < a.relevance terms shortestTerm ∨
    a.relevance terms shortestTerm = b.relevance terms shortestTerm ∧ a.name < b.name

/-- The place of a field: by its relevance, the highest one first, and then by its name. -/
def Field.place (terms : List String) (f : Field) : ℕᵒᵈ ×ₗ String :=
  toLex (toDual (f.relevance terms shortestTerm), f.name)

theorem Field.place_lt_iff {terms : List String} {a b : Field} :
    a.place terms < b.place terms ↔ a.Outranks terms b :=
  Prod.Lex.toLex_lt_toLex

theorem fieldGoesBefore_iff {terms : List String} (a b : Field) :
    fieldGoesBefore terms a b = true ↔ a.place terms < b.place terms := by
  rw [Field.place_lt_iff]
  simp [fieldGoesBefore, Field.Outranks]

def rankedFields (terms : List String) (fields : List Field) : List Field :=
  (fields.filter (!isAlwaysShown ·)).mergeSort fun a b => !fieldGoesBefore terms b a

section Ranked

variable (terms : List String) {fields : List Field}

theorem perm_rankedFields : (rankedFields terms fields).Perm (fields.filter (!isAlwaysShown ·)) :=
  List.mergeSort_perm _ _

theorem mem_rankedFields {f : Field} : f ∈ rankedFields terms fields ↔ f ∈ fields ∧ f.name ∉ alwaysShown := by
  rw [(perm_rankedFields terms).mem_iff, List.mem_filter, isAlwaysShown_eq]
  simp

theorem length_rankedFields : (rankedFields terms fields).length = fields.countP (·.name ∉ alwaysShown) := by
  rw [(perm_rankedFields terms).length_eq, ← List.countP_eq_length_filter]
  refine List.countP_congr fun f _ => ?_
  simp [isAlwaysShown_eq]

/-- Fields with different names are at different places. -/
theorem places_ne (hnames : (fields.map (·.name)).Nodup) :
    (fields.filter (!isAlwaysShown ·)).Pairwise fun a b => a.place terms ≠ b.place terms := by
  have hall := List.pairwise_map.mp hnames
  exact (hall.filter _).imp fun hne hplace => hne (congrArg (fun place => (ofLex place).2) hplace)

theorem pairwise_rankedFields (hnames : (fields.map (·.name)).Nodup) :
    (rankedFields terms fields).Pairwise (Field.Outranks terms) :=
  (pairwise_mergeSort_lt fieldGoesBefore_iff (places_ne terms hnames)).imp Field.place_lt_iff.mp

/-- The order of the other fields does not depend on the order in which the fields come. -/
theorem rankedFields_perm (hnames : (fields.map (·.name)).Nodup) {others : List Field}
    (hperm : others.Perm fields) : rankedFields terms others = rankedFields terms fields :=
  mergeSort_eq_of_perm fieldGoesBefore_iff (places_ne terms hnames) (hperm.filter _)

end Ranked

/-- A request without words has no terms. -/
theorem requestTerms_of_isEmpty (request : String) :
    (if request.isEmpty then [] else requestTerms request shortestTerm) = requestTerms request shortestTerm := by
  split
  case isTrue hempty =>
    obtain rfl : request = "" := by simpa using hempty
    decide
  case isFalse => rfl

theorem importantFields_eq (fields : List Field) (request : String) (maxFields : Int) :
    importantFields fields request maxFields = fields.filter isAlwaysShown ++
      (rankedFields (requestTerms request shortestTerm) fields).take
        (maxFields - (fields.filter isAlwaysShown).length).toNat := by
  unfold importantFields rankedFields
  dsimp only
  rw [requestTerms_of_isEmpty]

theorem importantFields_always (fields : List Field) (request : String) (maxFields : Int) :
    (importantFields fields request maxFields).filter isAlwaysShown = fields.filter isAlwaysShown := by
  have hothers : ∀ f ∈ rankedFields (requestTerms request shortestTerm) fields, ¬isAlwaysShown f = true := by
    intro f hf
    simpa [isAlwaysShown_eq] using ((mem_rankedFields _).mp hf).2
  rw [importantFields_eq, List.filter_append, List.filter_filter,
    List.filter_eq_nil_iff.mpr fun f hf => hothers f (List.mem_of_mem_take hf), List.append_nil]
  simp only [Bool.and_self]

theorem importantFields_subperm (fields : List Field) (request : String) (maxFields : Int) :
    (importantFields fields request maxFields).Subperm fields := by
  let ranked := rankedFields (requestTerms request shortestTerm) fields
  have hall : (fields.filter isAlwaysShown ++ ranked).Perm fields :=
    ((perm_rankedFields _).append_left _).trans (List.filter_append_perm isAlwaysShown fields)
  rw [importantFields_eq]
  exact ((List.take_sublist _ ranked).append_left _).subperm.trans hall.subperm

theorem length_importantFields_le (fields : List Field) (request : String) (maxFields : Int) :
    ((importantFields fields request maxFields).length : Int) ≤
      max maxFields (fields.countP isAlwaysShown) := by
  rw [importantFields_eq, List.length_append, List.length_take, List.countP_eq_length_filter]
  omega

/-- The fields that are always shown come first; behind them come the most relevant others, as many as there
is room for, each of them more relevant than every field that is left out. In whatever order the fields come,
the same others are chosen in the same order. -/
theorem importantFields_most_relevant {fields : List Field} (hnames : (fields.map (·.name)).Nodup)
    (request : String) (maxFields : Int) :
    ∃ chosen : List Field,
      importantFields fields request maxFields = fields.filter (·.name ∈ alwaysShown) ++ chosen ∧
      ((importantFields fields request maxFields).map (·.name)).Nodup ∧
      (∀ f ∈ chosen, f ∈ fields ∧ f.name ∉ alwaysShown) ∧
      (chosen.length : Int) = min (fields.countP (·.name ∉ alwaysShown) : Int)
        (max 0 (maxFields - fields.countP (·.name ∈ alwaysShown))) ∧
      chosen.Pairwise (Field.Outranks (requestTerms request shortestTerm)) ∧
      (∀ f ∈ chosen, ∀ o ∈ fields, o.name ∉ alwaysShown → o ∉ chosen →
        f.Outranks (requestTerms request shortestTerm) o) ∧
      ∀ others : List Field, others.Perm fields →
        importantFields others request maxFields = others.filter (·.name ∈ alwaysShown) ++ chosen := by
  let terms := requestTerms request shortestTerm
  let room := (maxFields - (fields.filter isAlwaysShown).length).toNat
  have halways (fs : List Field) : fs.filter (·.name ∈ alwaysShown) = fs.filter isAlwaysShown :=
    List.filter_congr fun f _ => (isAlwaysShown_eq f).symm
  -- The ranked fields are cut where the room ends, and each one before the cut outranks each one behind it.
  have hpairwise := pairwise_rankedFields terms hnames
  rw [← List.take_append_drop room (rankedFields terms fields), List.pairwise_append] at hpairwise
  obtain ⟨hchosen, -, hacross⟩ := hpairwise
  refine ⟨(rankedFields terms fields).take room, ?_, ?_, ?_, ?_, hchosen, ?_, ?_⟩
  · rw [importantFields_eq, halways]
  · obtain ⟨shown, hperm, hsublist⟩ := importantFields_subperm fields request maxFields
    exact (hperm.map _).nodup_iff.mp ((hsublist.map _).nodup hnames)
  · exact fun f hf => (mem_rankedFields terms).mp (List.mem_of_mem_take hf)
  · have hcount : (fields.filter isAlwaysShown).length = fields.countP (·.name ∈ alwaysShown) := by
      rw [List.countP_eq_length_filter, halways]
    rw [List.length_take, length_rankedFields]
    omega
  · intro f hf o ho hname hleft
    have hranked := (mem_rankedFields terms).mpr ⟨ho, hname⟩
    rw [← List.take_append_drop room (rankedFields terms fields), List.mem_append] at hranked
    exact hacross f hf o (hranked.resolve_left hleft)
  · intro others hperm
    have hsame : (others.filter isAlwaysShown).length = (fields.filter isAlwaysShown).length :=
      (hperm.filter _).length_eq
    rw [importantFields_eq, hsame, rankedFields_perm terms hnames hperm, halways]

def addressFields : List Field :=
  [Sample.plain "BillingCity" "Billing City" "string", Sample.plain "Id" "Account ID" "id",
    Sample.plain "BillingState" "Billing State/Province" "string", Sample.plain "Fax" "Fax" "string"]

theorem importantFields_most_relevant_billing :
    (addressFields.map (·.name)).Nodup ∧
      ∃ chosen : List Field, chosen.map (·.name) = ["BillingCity", "BillingState"] ∧
        ∀ others : List Field, others.Perm addressFields →
          importantFields others "billing city" 3 = others.filter (·.name ∈ alwaysShown) ++ chosen := by
  have hnames : (addressFields.map (·.name)).Nodup := by decide
  obtain ⟨chosen, heq, -, -, -, -, -, hperm⟩ := importantFields_most_relevant hnames "billing city" 3
  refine ⟨hnames, chosen, ?_, hperm⟩
  -- The other fields stand in the order of their relevance.
  have hranked : rankedFields (requestTerms "billing city" shortestTerm) addressFields =
      addressFields.filter (!isAlwaysShown ·) := List.mergeSort_of_pairwise (by decide +kernel)
  rw [importantFields_eq, hranked] at heq
  have hchosen : chosen = (addressFields.filter (!isAlwaysShown ·)).take 2 :=
    (List.append_cancel_left heq).symm
  rw [hchosen]
  decide +kernel

end Soql
