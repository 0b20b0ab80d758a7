import Mathlib.Analysis.Real.Sqrt
import Mathlib.Data.Prod.Lex
import Mathlib.Data.String.Basic
import Soql.Context.Assembly
import Soql.Proofs.Schema.Growth
import Soql.Proofs.Sorting
import Soql.Schema.Sample

namespace Soql

open OrderDual (toDual)

/-- Numbers that are compared as those of a linear order are: none of them is unequal to itself. -/
class Scalar.Exact (κ : Type) extends Scalar κ, LinearOrder κ where
  less_iff (a b : κ) : less a b = true ↔ a < b
  same_iff (a b : κ) : same a b = true ↔ a = b

noncomputable instance : Scalar.Exact ℝ where
  ofNat n := n
  sqrt := Real.sqrt
  less a b := decide (a < b)
  same a b := decide (a = b)
  less_iff _ _ := decide_eq_true_iff
  same_iff _ _ := decide_eq_true_iff

section Order

variable {κ : Type} [Scalar.Exact κ]

/-- The place of a candidate: by its score, the highest one first, and then by its name. -/
def Candidate.place (c : Candidate κ) : κᵒᵈ ×ₗ String :=
  toLex (toDual c.score, c.name)

theorem Candidate.place_lt_iff {a b : Candidate κ} :
    a.place < b.place ↔ b.score < a.score ∨ a.score = b.score ∧ a.name < b.name :=
  Prod.Lex.toLex_lt_toLex

theorem Candidate.goesBefore_iff {a b : Candidate κ} : a.goesBefore b = true ↔ a.place < b.place := by
  rw [place_lt_iff, goesBefore]
  split
  case isTrue hsame =>
    have hequal : a.score = b.score := (Scalar.Exact.same_iff _ _).mp hsame
    simp [hequal]
  case isFalse hsame =>
    have hne : a.score ≠ b.score := fun h => hsame ((Scalar.Exact.same_iff _ _).mpr h)
    simp [hne, Scalar.Exact.less_iff]

variable (w : Weights κ) (terms selected : List String) (semantic : Option (List (String × κ)))

theorem perm_rank (objects : List SObject) :
    (rank w terms selected semantic objects).candidates.Perm
      (objects.map (scored w terms selected semantic)) :=
  List.mergeSort_perm _ _

theorem names_scored (objects : List SObject) :
    (objects.map (scored w terms selected semantic)).map (·.name) = objects.map (·.name) := by
  rw [List.map_map]
  rfl

/-- Each object is ranked once. -/
theorem names_rank (objects : List SObject) :
    ((rank w terms selected semantic objects).candidates.map (·.name)).Perm (objects.map (·.name)) := by
  rw [← names_scored w terms selected semantic objects]
  exact (perm_rank w terms selected semantic objects).map _

variable {w terms selected semantic} {objects : List SObject}

/-- Of objects with different names no two have one place: the name is a part of it. -/
theorem places_scored_ne (hnames : (objects.map (·.name)).Nodup) :
    (objects.map (scored w terms selected semantic)).Pairwise fun a b => a.place ≠ b.place := by
  rw [← names_scored w terms selected semantic, List.Nodup, List.pairwise_map] at hnames
  exact hnames.imp fun hne hplace => hne (congrArg (fun place => (ofLex place).2) hplace)

theorem pairwise_rank_lt (hnames : (objects.map (·.name)).Nodup) :
    (rank w terms selected semantic objects).candidates.Pairwise fun a b => a.place < b.place :=
  pairwise_mergeSort_lt (fun _ _ => Candidate.goesBefore_iff) (places_scored_ne hnames)

/-- The ranking of objects with different names depends on nothing but the set of them and the likeness
of meaning of each. -/
theorem rank_perm {others : List SObject} {likeness : Option (List (String × κ))}
    (hperm : others.Perm objects) (hnames : (objects.map (·.name)).Nodup)
    (hmeans : likeness.isSome = semantic.isSome)
    (hsame : ∀ o ∈ objects, scored w terms selected likeness o = scored w terms selected semantic o) :
    rank w terms selected likeness others = rank w terms selected semantic objects := by
  have hscored : (others.map (scored w terms selected likeness)).Perm
      (objects.map (scored w terms selected semantic)) := by
    rw [← List.map_congr_left hsame]
    exact hperm.map _
  have hcandidates : (rank w terms selected likeness others).candidates =
      (rank w terms selected semantic objects).candidates :=
    mergeSort_eq_of_perm (fun _ _ => Candidate.goesBefore_iff) (places_scored_ne hnames) hscored
  unfold rank at hcandidates ⊢
  rw [hmeans]
  exact congrArg (Ranking.mk · semantic.isSome) hcandidates

end Order

/-- What meanings are compared with: a vector for each of some names, and the vector of a text. -/
abbrev Lookup (κ : Type) :=
  List String → String → Except Failure (List (String × List κ) × List κ)

/-- What ranks objects: the weights of the signals, and what meanings are compared with if they are. -/
structure Scorer (κ : Type) where
  weights : Weights κ
  lookup : Option (Lookup κ) := none

namespace Scorer

section Report

variable {κ : Type} [Scalar κ] (s : Scorer κ)

def likeness (request : String) (names : List String) : Option (List (String × κ)) :=
  s.lookup.bind fun look =>
    match look names request with
    | .ok (stored, vector) => meanings names stored vector
    | .error _ => none

def report (request : String) (objects : List SObject) (selected : List String) : Ranking κ :=
  let unique := firstOfEachName [] objects
  if unique.isEmpty then ⟨[], s.lookup.isSome⟩
  else rank s.weights (requestTerms request shortestTerm) selected
    (s.likeness request (unique.map (·.name))) unique

end Report

end Scorer

def Dialogue.answered {α : Type} (oracle : (q : Question) → q.Answer) : Dialogue α → Except Failure α
  | .done a => .ok a
  | .failed f => .error f
  | .ask q next => (next (oracle q)).answered oracle

def Assembler.scorer (a : Assembler) (oracle : (q : Question) → q.Answer) (tenant : Tenant) :
    Scorer Float where
  weights := a.weights
  lookup := if a.comparesMeanings then some fun names text => oracle (.vectors tenant names text) else none

/-- The ranking in an assembly of contexts is the report of its scorer. -/
theorem Assembler.rankFor_answered (a : Assembler) (oracle : (q : Question) → q.Answer) (request : String)
    (tenant : Tenant) (objects : List SObject) (selected : List String) :
    (a.rankFor request tenant objects selected).answered oracle =
      .ok ((a.scorer oracle tenant).report request objects selected) := by
  unfold rankFor Scorer.report scorer Scorer.likeness
  cases a.comparesMeanings with
  | false =>
    dsimp only
    split <;> rfl
  | true =>
    simp only [Bool.not_true, Bool.false_eq_true, if_false, if_true]
    split
    · rfl
    · simp only [Dialogue.answered]
      congr 2
      dsimp only [Option.bind]
      cases oracle (.vectors tenant ((firstOfEachName [] objects).map (·.name)) request) <;> rfl

namespace Table

variable {α β : Type}

/-- What is found under one of some names is what a table tells of it. -/
theorem find?_filterMap (table : List (String × α)) (f : α → β) (names : List String) (name : String) :
    find? name (names.filterMap fun n => (find? n table).map fun v => (n, f v)) =
      if name ∈ names then (find? name table).map f else none := by
  induction names with
  | nil => rfl
  | cons first names ih =>
    rw [List.filterMap_cons]
    by_cases hfirst : first = name
    · subst hfirst
      cases hheld : find? first table with
      | none => simp [ih, hheld]
      | some v => simp [find?]
    · have hname : name ∈ first :: names ↔ name ∈ names := by simp [Ne.symm hfirst]
      cases hheld : find? first table with
      | none => simp only [Option.map_none, ih, hname]
      | some v => simp only [Option.map_some, find?, if_neg hfirst, ih, hname]

/-- Putting what a table tells of some names gives a table that tells it of these names. -/
theorem find?_putAll_filterMap (table : List (String × α)) (names : List String) (name : String) :
    find? name (putAll (names.filterMap fun n => (find? n table).map fun v => (n, v)) []) =
      if name ∈ names then find? name table else none := by
  have hlist (entries : List (String × α)) :
      (entries.find? (·.1 = name)).map Prod.snd = find? name entries := by
    induction entries with
    | nil => rfl
    | cons entry entries ih =>
      rw [List.find?_cons, find?]
      by_cases hentry : entry.1 = name
      · simp [hentry]
      · simpa [hentry] using ih
  rw [find?_putAll, find?, Option.or_none, hlist, ← List.filterMap_reverse,
    find?_filterMap table (fun v => v), Option.map_id']
  simp only [List.mem_reverse]

/-- Tables that tell the same are both empty or both not. -/
theorem isEmpty_congr {table other : List (String × α)} (h : ∀ name, find? name table = find? name other) :
    table.isEmpty = other.isEmpty := by
  have hnone (t : List (String × α)) : t.isEmpty = true ↔ ∀ name, find? name t = none := by
    cases t with
    | nil => simp [find?]
    | cons entry rest =>
      simp only [List.isEmpty_cons, Bool.false_eq_true, false_iff, not_forall]
      exact ⟨entry.1, by simp [find?]⟩
  rw [Bool.eq_iff_iff, hnone, hnone]
  simp only [h]

end Table

/-- Of objects with different names each is the first of its name. -/
theorem firstOfEachName_eq_self {seen : List String} {objects : List SObject}
    (hnames : (objects.map (·.name)).Nodup) (hseen : ∀ o ∈ objects, o.name ∉ seen) :
    firstOfEachName seen objects = objects := by
  induction objects generalizing seen with
  | nil => rfl
  | cons o objects ih =>
    rw [List.map_cons, List.nodup_cons] at hnames
    obtain ⟨ho, hobjects⟩ := List.forall_mem_cons.mp hseen
    have hrest : firstOfEachName (o.name :: seen) objects = objects := by
      apply ih hnames.2
      intro other hother hname
      rcases List.mem_cons.mp hname with hsame | hname
      · exact hnames.1 (hsame ▸ List.mem_map_of_mem hother)
      · exact hobjects other hother hname
    rw [firstOfEachName, hrest, if_neg (by simpa using ho)]

/-- Two answers that tell the same: both are failures, or both have the same vector for each name and the
same vector for the text. -/
inductive SameVectors {κ : Type} : Except Failure (List (String × List κ) × List κ) →
    Except Failure (List (String × List κ) × List κ) → Prop
  | failed (f g : Failure) : SameVectors (.error f) (.error g)
  | told {stored other : List (String × List κ)} (vector : List κ)
    (h : ∀ name, Table.find? name stored = Table.find? name other) :
    SameVectors (.ok (stored, vector)) (.ok (other, vector))

/-- What is told of some names does not depend on the order in which they are asked for. -/
def Lookup.Orderless {κ : Type} (look : Lookup κ) : Prop :=
  ∀ {names others : List String}, names.Perm others → ∀ text, SameVectors (look names text) (look others text)

/-- An answer from which no likeness of meaning can be told. -/
inductive Unusable {κ : Type} : Except Failure (List (String × List κ) × List κ) → Prop
  | failed (f : Failure) : Unusable (.error f)
  | nothingStored (vector : List κ) : Unusable (.ok ([], vector))
  | noVector (stored : List (String × List κ)) : Unusable (.ok (stored, []))

/-- The vectors of a graph are told for names in any order. -/
theorem SchemaGraph.vectors_orderless (graph : SchemaGraph) (tenant : Tenant) (embed : String → List Float) :
    Lookup.Orderless fun names text => .ok (graph.vectors tenant names, embed text) := by
  intro names others hperm text
  apply SameVectors.told
  intro name
  simp only [vectors, Table.find?_putAll_filterMap, hperm.mem_iff]

namespace Scorer

section Likeness

variable {κ : Type} [Scalar κ] {s : Scorer κ} {request : String}

theorem scored_congr (w : Weights κ) (terms selected : List String) {o : SObject}
    {semantic other : Option (List (String × κ))}
    (h : semantic.map (fun m => (Table.find? o.name m).getD Scalar.nought) =
      other.map fun m => (Table.find? o.name m).getD Scalar.nought) :
    scored w terms selected semantic o = scored w terms selected other o := by
  have hsome : semantic.isSome = other.isSome := by
    rw [← Option.isSome_map, h, Option.isSome_map]
  unfold scored
  rw [h, hsome]

theorem likeness_of_unusable {look : Lookup κ} (hlook : s.lookup = some look) {names : List String}
    (h : Unusable (look names request)) : s.likeness request names = none := by
  rw [likeness, hlook, Option.bind_some]
  generalize look names request = answer at h
  cases h with
  | failed f => rfl
  | nothingStored vector => rfl
  | noVector stored =>
    simp only [meanings, List.isEmpty_nil, Bool.or_true, if_true]

/-- How a name is likened does not depend on the order in which the names come. -/
theorem likeness_perm (hlook : ∀ look ∈ s.lookup, look.Orderless) (request : String)
    {names others : List String} (hperm : names.Perm others) (name : String) :
    (s.likeness request names).map (fun m => (Table.find? name m).getD Scalar.nought) =
      (s.likeness request others).map fun m => (Table.find? name m).getD Scalar.nought := by
  unfold likeness
  cases hlookup : s.lookup with
  | none => rfl
  | some look =>
    have hsame := hlook look hlookup hperm request
    rw [Option.bind_some, Option.bind_some]
    generalize look names request = answer, look others request = again at hsame
    cases hsame with
    | failed f g => rfl
    | told vector htold =>
      simp only [meanings, Table.isEmpty_congr htold]
      split
      · rfl
      · simp only [Option.map_some, Table.find?_filterMap, htold, hperm.mem_iff]

end Likeness

section Exact

variable {κ : Type} [Scalar.Exact κ] (s : Scorer κ) (request : String) (selected : List String)

theorem report_eq {objects : List SObject} (hnames : (objects.map (·.name)).Nodup) :
    s.report request objects selected =
      if objects.isEmpty then ⟨[], s.lookup.isSome⟩
      else rank s.weights (requestTerms request shortestTerm) selected
        (s.likeness request (objects.map (·.name))) objects := by
  unfold report
  rw [firstOfEachName_eq_self hnames fun _ _ => List.not_mem_nil]

/-- Of objects with different names each is ranked once, by its score and then by its name; in whatever
order they come, the ranking is the same; and where what is told of their meanings cannot be used, it is
the ranking of a scorer that does not compare meanings. -/
theorem report_ranked {objects : List SObject} (hnames : (objects.map (·.name)).Nodup) :
    ((s.report request objects selected).candidates.map (·.name)).Perm (objects.map (·.name)) ∧
      ((s.report request objects selected).candidates.Pairwise fun a b =>
        b.score < a.score ∨ a.score = b.score ∧ a.name < b.name) ∧
      ((∀ look ∈ s.lookup, look.Orderless) → ∀ others, others.Perm objects →
        s.report request others selected = s.report request objects selected) ∧
      (objects ≠ [] → ∀ look ∈ s.lookup, Unusable (look (objects.map (·.name)) request) →
        s.report request objects selected = { s with lookup := none }.report request objects selected) := by
  by_cases hempty : objects = []
  · subst hempty
    refine ⟨.nil, .nil, fun _ others hperm => ?_, fun hne => absurd rfl hne⟩
    rw [hperm.eq_nil]
  have hreport (s : Scorer κ) : s.report request objects selected =
      rank s.weights (requestTerms request shortestTerm) selected
        (s.likeness request (objects.map (·.name))) objects := by
    rw [report_eq s request selected hnames, if_neg (by simpa using hempty)]
  refine ⟨?_, ?_, fun hlook others hperm => ?_, fun _ look hlook hunusable => ?_⟩
  · rw [hreport]
    exact names_rank ..
  · rw [hreport]
    exact (pairwise_rank_lt hnames).imp Candidate.place_lt_iff.mp
  · have hothers : (others.map (·.name)).Nodup := (hperm.map _).nodup_iff.mpr hnames
    have hsome : others ≠ [] := fun h => hempty (List.nil_perm.mp (h ▸ hperm))
    -- Both runs tell of each object the same likeness, or both tell none.
    have hsame (o : SObject) := s.likeness_perm hlook request (hperm.map (·.name)) o.name
    rw [hreport, report_eq s request selected hothers,
      if_neg (by simpa using hsome)]
    apply rank_perm hperm hnames
    · have hmeans := congrArg Option.isSome (hsame default)
      rwa [Option.isSome_map, Option.isSome_map] at hmeans
    · exact fun o _ => scored_congr _ _ _ (hsame o)
  · have hnone : ({ s with lookup := none } : Scorer κ).likeness request (objects.map (·.name)) = none := rfl
    rw [hreport, hreport, likeness_of_unusable hlook hunusable, hnone]

end Exact

noncomputable def unanswered : Scorer ℝ where
  weights := ⟨0.2, 0.5, 0.3, 0.15⟩
  lookup := some fun _ _ => .error (.runtime "no vectors")

theorem report_ranked_unanswered :
    ([Sample.contact, Sample.account].map (·.name)).Nodup ∧
      ((unanswered.report "accounts" [Sample.contact, Sample.account] ["User"]).candidates.map (·.name)).Perm
        ["Contact", "Account"] ∧
      unanswered.report "accounts" [Sample.account, Sample.contact] ["User"] =
        unanswered.report "accounts" [Sample.contact, Sample.account] ["User"] ∧
      unanswered.report "accounts" [Sample.contact, Sample.account] ["User"] =
        { unanswered with lookup := none }.report "accounts" [Sample.contact, Sample.account] ["User"] := by
  have hnames : ([Sample.contact, Sample.account].map (·.name)).Nodup := by decide
  have horderless : ∀ look ∈ unanswered.lookup, look.Orderless := by
    intro look hlook
    obtain rfl := Option.some.inj hlook
    exact fun _ _ => .failed _ _
  obtain ⟨honce, -, hperm, hfailed⟩ := report_ranked unanswered "accounts" ["User"] hnames
  exact ⟨hnames, honce, hperm horderless _ (.swap _ _ []), hfailed (by simp) _ rfl (.failed _)⟩

end Scorer

end Soql
