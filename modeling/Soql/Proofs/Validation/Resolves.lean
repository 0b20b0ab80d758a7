import Soql.Proofs.Text.Lower
import Soql.Validation.Rules

namespace Soql.PathWalk

open Text

def targetNames (objects : List SObject) (part : String) : List String :=
  ((objects.flatMap (·.parentsBy part)).map (·.target)).eraseDups

/-- The parts of a path lead from some objects to a field: of one of them, or one that all records
are taken to have when there are several (two names of one object count as two); or they lead to
objects of which none is described. -/
inductive Leads (context : Context) : List SObject → List String → Prop
  | field {objects : List SObject} {name : String} (o : SObject) (hmem : o ∈ objects)
      (hfield : (o.field? name).isSome = true) : Leads context objects [name]
  | common {objects : List SObject} {name : String} (hseveral : 1 < objects.length)
      (hcommon : lower name ∈ commonFields) : Leads context objects [name]
  | unknown {objects : List SObject} {part next : String} {rest : List String}
      (hsome : targetNames objects part ≠ [])
      (hnone : ∀ t ∈ targetNames objects part, context.get? t = none) :
      Leads context objects (part :: next :: rest)
  | through {objects : List SObject} {part next : String} {rest : List String}
      (hrest : Leads context ((targetNames objects part).filterMap context.get?) (next :: rest)) :
      Leads context objects (part :: next :: rest)

/-- A path resolves from an object, whose name it may begin with. -/
def Resolves (context : Context) (start : SObject) (path : String) : Prop :=
  Leads context [start] (splitOwnName path start).2

variable {context : Context}

theorem sameLower_eq (a b : String) : sameLower a b = (lowerChars a.toList == lowerChars b.toList) := by
  unfold sameLower lower
  rw [Bool.eq_iff_iff, beq_iff_eq, beq_iff_eq, String.ofList_inj]

/-- The links that a name is looked up among are those of each object under this name. -/
theorem links_eq (objects : List SObject) (part : String) :
    (objects.flatMap (·.parents)).filter
        (fun l => lowerChars l.relationship.toList == lowerChars part.toList) =
      objects.flatMap (·.parentsBy part) := by
  rw [List.filter_flatMap]
  congr 1
  funext o
  unfold SObject.parentsBy
  congr 1
  funext l
  exact (sameLower_eq _ _).symm

theorem link_of_ne_nil {objects : List SObject} {part : String} (h : objects.flatMap (·.parentsBy part) ≠ []) :
    Nearest.link part (objects.flatMap (·.parents)) = .found (objects.flatMap (·.parentsBy part)) := by
  unfold Nearest.link
  simp only [links_eq]
  cases hlinks : objects.flatMap (·.parentsBy part) with
  | nil => exact absurd hlinks h
  | cons first others => rfl

theorem link_of_nil {objects : List SObject} {part : String} (h : objects.flatMap (·.parentsBy part) = [])
    (matching : List ParentLink) : Nearest.link part (objects.flatMap (·.parents)) ≠ .found matching := by
  unfold Nearest.link
  simp only [links_eq, h]
  split
  · exact nofun
  · split <;> exact nofun

theorem targetNames_eq_nil {objects : List SObject} {part : String} :
    targetNames objects part = [] ↔ objects.flatMap (·.parentsBy part) = [] := by
  unfold targetNames
  cases objects.flatMap (·.parentsBy part) with
  | nil => simp
  | cons l links => simp [List.eraseDups_cons]

theorem not_leads_nil (parts : List String) : ¬Leads context [] parts := by
  induction parts with
  | nil => exact nofun
  | cons part parts ih =>
    rintro (⟨o, hmem, -⟩ | ⟨hseveral, -⟩ | ⟨hsome, -⟩ | hrest)
    · cases hmem
    · cases hseveral
    · exact hsome rfl
    · exact ih hrest

theorem isReached_lostAtField (before : List String) (name : String) (owner : SObject) :
    (lostAtField before name owner).isReached = false := by
  unfold lostAtField
  simp only
  split
  · split <;> rfl
  · rfl

theorem isReached_lostAtLink (before : List String) (owner part : String) (rest : List String)
    (links : List ParentLink) (found : Nearest.LinkMatch) :
    (lostAtLink before owner part rest links found).isReached = false := by
  unfold lostAtLink
  simp only
  split <;> rfl

theorem lastStep_isReached {before : List String} {owner : SObject} {others : List SObject} {name : String} :
    (lastStep before owner others name).isReached = true ↔ Leads context (owner :: others) [name] := by
  unfold lastStep
  cases hfound : (owner :: others).findSome? (·.field? name) with
  | some f =>
    obtain ⟨o, hmem, hfield⟩ := List.exists_of_findSome?_eq_some hfound
    have hleads : Leads context (owner :: others) [name] := .field o hmem (by rw [hfield]; rfl)
    exact iff_of_true rfl hleads
  | none =>
    have hlack := List.findSome?_eq_none_iff.mp hfound
    by_cases hcommon : (!others.isEmpty && commonFields.contains (lower name)) = true
    · simp only [hcommon, if_true]
      rw [Bool.and_eq_true, Bool.not_eq_true', List.isEmpty_eq_false_iff, List.contains_iff_mem] at hcommon
      have hseveral : 1 < (owner :: others).length := by
        have := List.length_pos_iff.mpr hcommon.1
        rw [List.length_cons]
        omega
      exact iff_of_true rfl (.common hseveral hcommon.2)
    · simp only [hcommon]
      refine iff_of_false (by simp [isReached_lostAtField]) ?_
      rintro (⟨o, hmem, hfield⟩ | ⟨hseveral, hname⟩)
      · rw [hlack o hmem] at hfield
        cases hfield
      · apply hcommon
        rw [Bool.and_eq_true, Bool.not_eq_true', List.isEmpty_eq_false_iff, List.contains_iff_mem]
        refine ⟨?_, hname⟩
        rintro rfl
        simp at hseveral

/-- A walk reaches a field, or the end of what is described, exactly where its parts lead there. -/
theorem walkFrom_isReached {before : List String} {owner : SObject} {others : List SObject}
    {parts : List String} (hparts : parts ≠ []) :
    (walkFrom context before owner others parts).isReached = true ↔ Leads context (owner :: others) parts := by
  induction parts generalizing before owner others with
  | nil => exact absurd rfl hparts
  | cons part parts ih =>
    cases parts with
    | nil => exact lastStep_isReached
    | cons next rest =>
      rw [walkFrom]
      by_cases hlinks : (owner :: others).flatMap (·.parentsBy part) = []
      · -- No object has such a relationship.
        have hnames : targetNames (owner :: others) part = [] := targetNames_eq_nil.mpr hlinks
        have hlost : ¬Leads context (owner :: others) (part :: next :: rest) := by
          rintro (_ | _ | ⟨hsome, -⟩ | hrest)
          · exact hsome hnames
          · rw [hnames] at hrest
            exact not_leads_nil _ hrest
        refine iff_of_false ?_ hlost
        split
        case h_1 matching hfound => exact absurd hfound (link_of_nil hlinks matching)
        case h_2 => simp [isReached_lostAtLink]
      · simp only [link_of_ne_nil hlinks]
        have hsome : targetNames (owner :: others) part ≠ [] := mt targetNames_eq_nil.mp hlinks
        have hnames : (((owner :: others).flatMap (·.parentsBy part)).map (·.target)).eraseDups =
          targetNames (owner :: others) part := rfl
        rw [hnames]
        cases hdescribed : (targetNames (owner :: others) part).filterMap context.get? with
        | nil =>
          have hnone : ∀ t ∈ targetNames (owner :: others) part, context.get? t = none :=
            List.filterMap_eq_nil_iff.mp hdescribed
          exact iff_of_true rfl (.unknown hsome hnone)
        | cons first more =>
          -- What is described of the targets is where the walk goes on.
          refine (ih (by simp)).trans ⟨fun h => .through (hdescribed ▸ h), ?_⟩
          rintro (_ | _ | ⟨-, hnone⟩ | hrest)
          · rw [List.filterMap_eq_nil_iff.mpr hnone] at hdescribed
            cases hdescribed
          · rw [← hdescribed]
            exact hrest

theorem splitOwnName_ne_nil (path : String) (o : SObject) : (splitOwnName path o).2 ≠ [] := by
  unfold splitOwnName
  split
  · split <;> simp
  · unfold segments splitAt
    simp [pieces_ne_nil]

theorem walk_isReached {start : SObject} {path : String} :
    (walk context start path).isReached = true ↔ Resolves context start path :=
  walkFrom_isReached (splitOwnName_ne_nil path start)

instance (context : Context) (start : SObject) (path : String) : Decidable (Resolves context start path) :=
  decidable_of_iff _ walk_isReached

section LetterCase

theorem parentsBy_congr {part other : String} (h : lower part = lower other) (o : SObject) :
    o.parentsBy part = o.parentsBy other := by
  unfold SObject.parentsBy sameLower
  rw [h]

theorem field?_congr {name other : String} (h : lower name = lower other) (o : SObject) :
    o.field? name = o.field? other := by
  unfold SObject.field? sameLower
  rw [h]

theorem targetNames_congr {part other : String} (h : lower part = lower other) (objects : List SObject) :
    targetNames objects part = targetNames objects other := by
  unfold targetNames
  simp only [parentsBy_congr h]

/-- Parts lead where the same parts in another letter case lead. -/
theorem Leads.congr {objects : List SObject} {parts others : List String} (h : Leads context objects parts)
    (hcase : parts.map lower = others.map lower) : Leads context objects others := by
  induction h generalizing others with
  | @field objects name o hmem hfield =>
    obtain ⟨other, rest, rfl, hname, hrest⟩ := List.map_eq_cons_iff.mp hcase.symm
    obtain rfl := List.map_eq_nil_iff.mp hrest
    rw [field?_congr hname.symm] at hfield
    exact .field o hmem hfield
  | @common objects name hseveral hcommon =>
    obtain ⟨other, rest, rfl, hname, hrest⟩ := List.map_eq_cons_iff.mp hcase.symm
    obtain rfl := List.map_eq_nil_iff.mp hrest
    rw [← hname] at hcommon
    exact .common hseveral hcommon
  | @unknown objects part next rest hsome hnone =>
    obtain ⟨other, more, rfl, hpart, hmore⟩ := List.map_eq_cons_iff.mp hcase.symm
    obtain ⟨another, others, rfl, -, -⟩ := List.map_eq_cons_iff.mp hmore
    rw [targetNames_congr hpart.symm] at hsome hnone
    exact .unknown hsome hnone
  | @through objects part next rest hrest ih =>
    obtain ⟨other, more, rfl, hpart, hmore⟩ := List.map_eq_cons_iff.mp hcase.symm
    obtain ⟨another, others, rfl, -, -⟩ := List.map_eq_cons_iff.mp hmore
    apply Leads.through
    rw [targetNames_congr hpart]
    exact ih hmore.symm

theorem namesItself_congr {part other : String} (h : lower part = lower other) (o : SObject) :
    namesItself part o = namesItself other o := by
  unfold namesItself
  rw [parentsBy_congr h]
  unfold sameLower
  rw [h]

theorem lower_segments_congr {path other : String} (hfree : SigmaFree path) (hother : SigmaFree other)
    (h : lower path = lower other) : (segments path).map lower = (segments other).map lower := by
  rw [lower_segments hfree, lower_segments hother, h]

theorem splitOwnName_congr {path other : String} {o : SObject}
    (h : (segments path).map lower = (segments other).map lower) :
    (splitOwnName path o).2.map lower = (splitOwnName other o).2.map lower := by
  unfold splitOwnName
  generalize segments path = parts, segments other = others at h
  cases parts with
  | nil =>
    obtain rfl := List.map_eq_nil_iff.mp h.symm
    rfl
  | cons first parts =>
    obtain ⟨other, others, rfl, hfirst, hrest⟩ := List.map_eq_cons_iff.mp h.symm
    cases parts with
    | nil =>
      obtain rfl := List.map_eq_nil_iff.mp hrest
      exact h
    | cons second parts =>
      obtain ⟨another, others, rfl, -, -⟩ := List.map_eq_cons_iff.mp hrest
      simp only [namesItself_congr hfirst]
      split
      · exact hrest.symm
      · exact h

theorem Resolves.congr {start : SObject} {path other : String} (h : Resolves context start path)
    (hcase : (segments path).map lower = (segments other).map lower) : Resolves context start other :=
  Leads.congr h (splitOwnName_congr hcase)

theorem junctionOf_congr {part other : String} (h : lower part = lower other) (main : SObject) :
    junctionOf part main = junctionOf other main := by
  unfold junctionOf
  rw [parentsBy_congr h, namesItself_congr h]
  unfold sameLower
  rw [h]

end LetterCase

end Soql.PathWalk
