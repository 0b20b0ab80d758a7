import Soql.Proofs.Text.Pattern
import Soql.Proofs.Validation.Writable
import Soql.Schema.Sample

/-!
Corrections of lost paths. A correction exchanges the one segment at which the walk is lost for a name
that leads on from there, so that the next walk is lost further on if at all. Taking one correction after
another thus comes to an end after at most as many steps as the path has segments.
-/

namespace Soql

open Text

/-- Each field's name and each relationship to a parent is one segment of a path. -/
def SObject.IsUndotted (o : SObject) : Prop :=
  (∀ f ∈ o.fields, '.' ∉ f.name.toList) ∧ ∀ l ∈ o.parents, '.' ∉ l.relationship.toList

instance (o : SObject) : Decidable o.IsUndotted :=
  inferInstanceAs (Decidable (_ ∧ _))

/-- The names of all objects that are described are segments of paths. -/
def Context.IsUndotted (context : Context) : Prop :=
  ∀ entry ∈ context.catalog, entry.2.IsUndotted

instance (context : Context) : Decidable context.IsUndotted :=
  inferInstanceAs (Decidable (∀ entry ∈ context.catalog, entry.2.IsUndotted))

theorem Context.IsUndotted.get? {context : Context} (h : context.IsUndotted) {name : String} {o : SObject}
    (ho : context.get? name = some o) : o.IsUndotted := by
  unfold Context.get? Catalog.get? at ho
  split at ho
  · rename_i hfound
    cases ho
    exact h _ (Table.mem_of_find? hfound)
  · obtain ⟨entry, hentry, rfl⟩ := Option.map_eq_some_iff.mp ho
    exact h entry (List.mem_of_find?_eq_some hentry)

namespace PathWalk

/-- Parts of a path are lost at one of them, counted from nought: those before it lead on, and there no
object has a relationship, or, at the end, a field of its name. -/
inductive LostAt (context : Context) : List SObject → List String → Nat → Prop
  | field {objects : List SObject} {name : String} (hlost : ¬Leads context objects [name]) :
    LostAt context objects [name] 0
  | link {objects : List SObject} {part next : String} {rest : List String}
    (hnone : targetNames objects part = []) : LostAt context objects (part :: next :: rest) 0
  | through {objects : List SObject} {part next : String} {rest : List String} {i : Nat}
    (hsome : (targetNames objects part).filterMap context.get? ≠ [])
    (hrest : LostAt context ((targetNames objects part).filterMap context.get?) (next :: rest) i) :
    LostAt context objects (part :: next :: rest) (i + 1)

/-- A path is lost at one of its segments; the name of the object that it may begin with is one. -/
def LostAtSegment (context : Context) (start : SObject) (path : String) (i : Nat) : Prop :=
  ∃ j, LostAt context [start] (splitOwnName path start).2 j ∧ i = (splitOwnName path start).1.length + j

/-- A lost path is corrected to another one. -/
def Corrects (context : Context) (start : SObject) (path corrected : String) : Prop :=
  ∃ message, walk context start path = .lost message (some corrected)

/-- A path that needs no correction, or that has none. -/
def Ends (context : Context) (start : SObject) (path : String) : Prop :=
  (walk context start path).isReached = true ∨ ∃ message, walk context start path = .lost message none

variable {context : Context}

theorem LostAt.lt_length {objects : List SObject} {parts : List String} {i : Nat}
    (h : LostAt context objects parts i) : i < parts.length := by
  induction h with
  | field => exact Nat.zero_lt_one
  | link => exact Nat.zero_lt_succ _
  | through _ _ ih =>
    rw [List.length_cons]
    omega

theorem LostAt.unique {objects : List SObject} {parts : List String} {i j : Nat}
    (h : LostAt context objects parts i) (h' : LostAt context objects parts j) : i = j := by
  induction h generalizing j with
  | field =>
    cases h' with
    | field => rfl
  | link hnone =>
    cases h' with
    | link => rfl
    | through hsome => simp [hnone] at hsome
  | through hsome _ ih =>
    cases h' with
    | link hnone => simp [hnone] at hsome
    | through _ hrest => rw [ih hrest]

/-- Parts lead to a field, or they are lost at one of them. -/
theorem leads_or_lostAt {objects : List SObject} {parts : List String} (hparts : parts ≠ []) :
    Leads context objects parts ∨ ∃ i, LostAt context objects parts i := by
  induction parts generalizing objects with
  | nil => exact absurd rfl hparts
  | cons part parts ih =>
    cases parts with
    | nil =>
      by_cases hleads : Leads context objects [part]
      · exact .inl hleads
      · exact .inr ⟨0, .field hleads⟩
    | cons next rest =>
      by_cases hnone : targetNames objects part = []
      · exact .inr ⟨0, .link hnone⟩
      · by_cases hdescribed : (targetNames objects part).filterMap context.get? = []
        · exact .inl (.unknown hnone (List.filterMap_eq_nil_iff.mp hdescribed))
        · rcases @ih ((targetNames objects part).filterMap context.get?) (by simp) with hleads | ⟨i, hlost⟩
          · exact .inl (.through hleads)
          · exact .inr ⟨i + 1, .through hdescribed hlost⟩

/-- Parts lead on past one of them: to a field, or to a later part. -/
def LeadsPast (context : Context) (objects : List SObject) (parts : List String) (i : Nat) : Prop :=
  Leads context objects parts ∨ i + 1 < parts.length ∧ ∃ j, i < j ∧ LostAt context objects parts j

theorem leadsPast_link {objects : List SObject} {part next : String} {rest : List String}
    (hpart : targetNames objects part ≠ []) : LeadsPast context objects (part :: next :: rest) 0 := by
  have hparts : part :: next :: rest ≠ [] := by simp
  rcases leads_or_lostAt hparts with hleads | ⟨j, hlost⟩
  · exact .inl hleads
  · refine .inr ⟨by simp, j, ?_, hlost⟩
    cases hlost with
    | link hnone => exact absurd hnone hpart
    | through => exact Nat.zero_lt_succ _

theorem LeadsPast.through {objects : List SObject} {part next : String} {rest : List String} {i : Nat}
    (hsome : (targetNames objects part).filterMap context.get? ≠ [])
    (h : LeadsPast context ((targetNames objects part).filterMap context.get?) (next :: rest) i) :
    LeadsPast context objects (part :: next :: rest) (i + 1) := by
  rcases h with hleads | ⟨hlength, j, hj, hlost⟩
  · exact .inl (.through hleads)
  · refine .inr ⟨?_, j + 1, by omega, .through hsome hlost⟩
    rw [List.length_cons]
    omega

/-- A name that takes the place of the part at which parts are lost, and leads on from there. A name of a
relationship is one of the objects that the parts before lead to. -/
structure Mends (context : Context) (objects : List SObject) (parts : List String) (i : Nat) (new : String) :
    Prop where
  lost : LostAt context objects parts i
  differs : parts[i]? ≠ some new
  segment : '.' ∉ new.toList
  past : LeadsPast context objects (parts.set i new) i
  first : i = 0 → 1 < parts.length → targetNames objects new ≠ []

theorem Mends.through {objects : List SObject} {part next : String} {rest : List String} {i : Nat} {new : String}
    (hsome : (targetNames objects part).filterMap context.get? ≠ [])
    (h : Mends context ((targetNames objects part).filterMap context.get?) (next :: rest) i new) :
    Mends context objects (part :: next :: rest) (i + 1) new where
  lost := .through hsome h.lost
  differs := h.differs
  segment := h.segment
  past := by
    have hpast := h.past
    cases i with
    | zero => exact hpast.through hsome
    | succ i => exact hpast.through hsome
  first := nofun

/-- The field that is suggested at the end of a path is one of the object that is asked for it. -/
theorem mends_field {objects : List SObject} {owner : SObject} {name suggestion : String}
    (howner : owner ∈ objects) (hundotted : owner.IsUndotted) (hlost : ¬Leads context objects [name])
    (hfound : (Nearest.field name owner.fields).suggested = some suggestion) :
    Mends context objects [name] 0 suggestion := by
  obtain ⟨f, hf, rfl⟩ := Nearest.mem_of_field hfound
  have hfield : (owner.field? f.name).isSome = true := by
    rw [SObject.field?, List.find?_isSome]
    exact ⟨f, hf, by simp [sameLower]⟩
  have hleads : Leads context objects [f.name] := .field owner howner hfield
  exact {
    lost := .field hlost
    differs := by
      intro hsame
      obtain rfl : name = f.name := by simpa using hsame
      exact hlost hleads
    segment := hundotted.1 f hf
    past := .inl hleads
    first := fun _ hlength => absurd hlength (by simp) }

/-- The relationship that is suggested inside a path is one of the objects that are asked for it. -/
theorem mends_link {objects : List SObject} {part next : String} {rest : List String} {l : ParentLink}
    (hundotted : ∀ o ∈ objects, o.IsUndotted) (hnone : targetNames objects part = [])
    (hfound : Nearest.link part (objects.flatMap (·.parents)) = .suggestion l) :
    Mends context objects (part :: next :: rest) 0 l.relationship := by
  obtain ⟨o, ho, hl⟩ := List.mem_flatMap.mp (Nearest.mem_of_link hfound)
  have hnames : targetNames objects l.relationship ≠ [] := by
    rw [Ne, targetNames_eq_nil, List.flatMap_eq_nil_iff]
    intro hall
    have hmem : l ∈ o.parentsBy l.relationship := List.mem_filter.mpr ⟨hl, by simp [sameLower]⟩
    rw [hall o ho] at hmem
    cases hmem
  exact {
    lost := .link hnone
    differs := by
      intro hsame
      obtain rfl : part = l.relationship := by simpa using hsame
      exact hnames hnone
    segment := (hundotted o ho).2 l hl
    past := leadsPast_link hnames
    first := fun _ _ => hnames }

theorem lastStep_lost {before : List String} {owner : SObject} {others : List SObject}
    {name message corrected : String} (h : lastStep before owner others name = .lost message (some corrected)) :
    ∃ suggestion, (Nearest.field name owner.fields).suggested = some suggestion ∧
      corrected = joined "." (before ++ [suggestion]) := by
  unfold lastStep at h
  split at h
  case h_1 => cases h
  case h_2 =>
    split at h
    case isTrue => cases h
    case isFalse =>
      unfold lostAtField at h
      simp only at h
      split at h
      case h_1 suggestion hsuggested =>
        split at h
        case isTrue => cases h
        case isFalse =>
          cases h
          exact ⟨suggestion, hsuggested, rfl⟩
      case h_2 => cases h

theorem lostAtLink_lost {before rest : List String} {owner part message corrected : String}
    {links : List ParentLink} {found : Nearest.LinkMatch}
    (h : lostAtLink before owner part rest links found = .lost message (some corrected)) :
    ∃ l, found = .suggestion l ∧ corrected = joined "." (before ++ l.relationship :: rest) := by
  unfold lostAtLink at h
  simp only at h
  split at h
  case h_1 l hsuggested =>
    cases h
    exact ⟨l, Nearest.eq_of_suggested hsuggested, rfl⟩
  case h_2 => cases h

/-- The correction of a lost walk mends the parts that it was to take, and keeps those taken before. -/
theorem walkFrom_mends (hcontext : context.IsUndotted) {before : List String} {owner : SObject}
    {others : List SObject} (hobjects : ∀ o ∈ owner :: others, o.IsUndotted) {parts : List String}
    (hparts : parts ≠ []) {message corrected : String}
    (h : walkFrom context before owner others parts = .lost message (some corrected)) :
    ∃ i new, Mends context (owner :: others) parts i new ∧ corrected = joined "." (before ++ parts.set i new) := by
  have hlost : ¬Leads context (owner :: others) parts := by
    have hreached := congrArg Outcome.isReached h
    rw [Outcome.isReached, ← Bool.not_eq_true, walkFrom_isReached hparts] at hreached
    exact hreached
  induction parts generalizing before owner others with
  | nil => exact absurd rfl hparts
  | cons part parts ih =>
    cases parts with
    | nil =>
      obtain ⟨suggestion, hsuggested, rfl⟩ := lastStep_lost h
      exact ⟨0, suggestion,
        mends_field List.mem_cons_self (hobjects owner List.mem_cons_self) hlost hsuggested, rfl⟩
    | cons next rest =>
      rw [walkFrom] at h
      by_cases hlinks : (owner :: others).flatMap (·.parentsBy part) = []
      · -- The walk is lost here, and the suggestion takes the place of this very part.
        split at h
        case h_1 matching hfound => exact absurd hfound (link_of_nil hlinks matching)
        case h_2 =>
          obtain ⟨l, hfound, rfl⟩ := lostAtLink_lost h
          exact ⟨0, l.relationship, mends_link hobjects (targetNames_eq_nil.mpr hlinks) hfound, rfl⟩
      · simp only [link_of_ne_nil hlinks] at h
        have hnames : (((owner :: others).flatMap (·.parentsBy part)).map (·.target)).eraseDups =
          targetNames (owner :: others) part := rfl
        rw [hnames] at h
        cases hdescribed : (targetNames (owner :: others) part).filterMap context.get? with
        | nil =>
          rw [hdescribed] at h
          cases h
        | cons first more =>
          rw [hdescribed] at h
          have hall : ∀ o ∈ first :: more, o.IsUndotted := by
            intro o ho
            rw [← hdescribed] at ho
            obtain ⟨target, -, htarget⟩ := List.mem_filterMap.mp ho
            exact hcontext.get? htarget
          have hrest : ¬Leads context (first :: more) (next :: rest) := by
            rw [← hdescribed]
            exact fun hleads => hlost (.through hleads)
          obtain ⟨i, new, hmends, rfl⟩ := ih hall (by simp) h hrest
          rw [← hdescribed] at hmends
          refine ⟨i + 1, new, hmends.through (by simp [hdescribed]), ?_⟩
          rw [List.append_assoc]
          rfl

theorem parentsBy_of_targetNames {o : SObject} {part : String} (h : targetNames [o] part ≠ []) :
    o.parentsBy part ≠ [] := by
  intro hnone
  apply h
  rw [targetNames_eq_nil]
  simp [hnone]

/-- The name of the object that a path begins with is told from the parts behind it when one of these is
mended: a relationship in front of them is never taken for that name. -/
theorem splitOwnName_set {start : SObject} {path other : String} {i : Nat} {new : String}
    (hother : segments other = (splitOwnName path start).1 ++ (splitOwnName path start).2.set i new)
    (hfirst : i = 0 → 1 < (splitOwnName path start).2.length → start.parentsBy new ≠ []) :
    splitOwnName other start = ((splitOwnName path start).1, (splitOwnName path start).2.set i new) := by
  rw [splitOwnName, hother]
  unfold splitOwnName at hfirst ⊢
  cases hsegments : segments path with
  | nil => rfl
  | cons first rest =>
    rw [hsegments] at hfirst
    cases rest with
    | nil => cases i <;> rfl
    | cons second rest =>
      by_cases hown : namesItself first start = true
      · simp only [hown, if_true]
        cases i <;> simp [hown]
      · simp only [hown] at hfirst ⊢
        cases i with
        | zero =>
          have hnew : namesItself new start = false := by
            have hlinks := hfirst rfl (by simp)
            rw [namesItself, List.isEmpty_eq_false_iff.mpr hlinks, Bool.and_false]
          simp [hnew]
        | succ i => cases i <;> simp [hown]

theorem point_not_mem_segments {path s : String} (hs : s ∈ segments path) : '.' ∉ s.toList := by
  obtain ⟨piece, hpiece, rfl⟩ := List.mem_map.mp hs
  rw [String.toList_ofList]
  intro hpoint
  simpa using mem_pieces_not_sep hpiece hpoint

/-- A correction mends the parts of a path behind the name of the object that it may begin with, and the
corrected path is taken apart at the same place. -/
theorem walk_mends (hcontext : context.IsUndotted) {start : SObject} (hstart : start.IsUndotted)
    {path corrected : String} (h : Corrects context start path corrected) :
    ∃ i new, Mends context [start] (splitOwnName path start).2 i new ∧
      splitOwnName corrected start = ((splitOwnName path start).1, (splitOwnName path start).2.set i new) := by
  obtain ⟨message, hwalk⟩ := h
  obtain ⟨i, new, hmends, hjoined⟩ := walkFrom_mends hcontext (by simpa using hstart)
    (splitOwnName_ne_nil path start) hwalk
  refine ⟨i, new, hmends, splitOwnName_set ?_ ?_⟩
  · have hne : (splitOwnName path start).1 ++ (splitOwnName path start).2.set i new ≠ [] := by
      simp [splitOwnName_ne_nil path start]
    rw [hjoined]
    refine segments_joined hne ?_
    intro s hs
    rcases List.mem_append.mp hs with hs | hs
    · apply @point_not_mem_segments path
      rw [← splitOwnName_append path start]
      exact List.mem_append_left _ hs
    · rcases List.mem_or_eq_of_mem_set hs with hs | rfl
      · apply @point_not_mem_segments path
        rw [← splitOwnName_append path start]
        exact List.mem_append_right _ hs
      · exact hmends.segment
  · intro hi hlength
    exact parentsBy_of_targetNames (hmends.first hi hlength)

/-- What a correction does to a path: it exchanges the segment at which the path is lost, and the corrected
path leads past it. -/
structure Advances (context : Context) (start : SObject) (path corrected : String) (i : Nat) : Prop where
  lost : LostAtSegment context start path i
  length : (segments corrected).length = (segments path).length
  differs : ∀ k, (segments corrected)[k]? ≠ (segments path)[k]? ↔ k = i
  past : (walk context start corrected).isReached = true ∨ ∃ j, i < j ∧ LostAtSegment context start corrected j
  last : i + 1 = (segments path).length → (walk context start corrected).isReached = true

theorem advances_of_corrects (hcontext : context.IsUndotted) {start : SObject} (hstart : start.IsUndotted)
    {path corrected : String} (h : Corrects context start path corrected) :
    ∃ i, Advances context start path corrected i := by
  obtain ⟨i, new, hmends, hsplit⟩ := walk_mends hcontext hstart h
  -- A name of the object itself in front of the path moves all segments by one.
  have hpath := splitOwnName_append path start
  have hcorrected := splitOwnName_append corrected start
  simp only [hsplit] at hcorrected
  have hi := hmends.lost.lt_length
  have hreached : Leads context [start] ((splitOwnName path start).2.set i new) →
      (walk context start corrected).isReached = true := by
    intro hleads
    rw [walk_isReached, Resolves, hsplit]
    exact hleads
  refine ⟨(splitOwnName path start).1.length + i, ⟨i, hmends.lost, rfl⟩, ?_, ?_, ?_, ?_⟩
  · rw [← hpath, ← hcorrected]
    simp
  · intro k
    rw [← hpath, ← hcorrected]
    by_cases hk : k < (splitOwnName path start).1.length
    · rw [List.getElem?_append_left hk, List.getElem?_append_left hk]
      exact iff_of_false (fun hne => hne rfl) (by omega)
    · rw [List.getElem?_append_right (by omega), List.getElem?_append_right (by omega), List.getElem?_set]
      by_cases hki : i = k - (splitOwnName path start).1.length
      · rw [if_pos hki, if_pos hi, hki]
        exact iff_of_true (fun hsame => hmends.differs (hki ▸ hsame.symm)) (by omega)
      · rw [if_neg hki]
        exact iff_of_false (fun hne => hne rfl) (by omega)
  · rcases hmends.past with hleads | ⟨-, j, hj, hlost⟩
    · exact .inl (hreached hleads)
    · refine .inr ⟨(splitOwnName path start).1.length + j, by omega, j, ?_, ?_⟩
      · rw [hsplit]
        exact hlost
      · rw [hsplit]
  · intro hlast
    rw [← hpath, List.length_append] at hlast
    rcases hmends.past with hleads | ⟨hinner, -⟩
    · exact hreached hleads
    · rw [List.length_set] at hinner
      omega

/-- Parts that are lost at one of them do not lead to a field. -/
theorem LostAt.not_leads {objects : List SObject} {parts : List String} {i : Nat}
    (h : LostAt context objects parts i) : ¬Leads context objects parts := by
  induction h with
  | field hlost => exact hlost
  | link hnone =>
    intro hleads
    cases hleads with
    | unknown hsome => exact hsome hnone
    | through hrest =>
      rw [hnone] at hrest
      exact not_leads_nil _ hrest
  | through hsome _ ih =>
    intro hleads
    cases hleads with
    | unknown _ hnone => exact hsome (List.filterMap_eq_nil_iff.mpr hnone)
    | through hrest => exact ih hrest

/-- A path is lost at a segment just when walking it fails. -/
theorem exists_lostAtSegment_iff {start : SObject} {path : String} :
    (∃ i, LostAtSegment context start path i) ↔ (walk context start path).isReached = false := by
  rw [← Bool.not_eq_true, walk_isReached, Resolves]
  constructor
  · rintro ⟨i, j, hlost, -⟩
    exact hlost.not_leads
  · intro hleads
    rcases leads_or_lostAt (splitOwnName_ne_nil path start) with hreached | ⟨j, hlost⟩
    · exact absurd hreached hleads
    · exact ⟨_, j, hlost, rfl⟩

theorem LostAtSegment.unique {start : SObject} {path : String} {i j : Nat}
    (h : LostAtSegment context start path i) (h' : LostAtSegment context start path j) : i = j := by
  obtain ⟨i, hi, rfl⟩ := h
  obtain ⟨j, hj, rfl⟩ := h'
  rw [hi.unique hj]

theorem LostAtSegment.lt_length {start : SObject} {path : String} {i : Nat}
    (h : LostAtSegment context start path i) : i < (segments path).length := by
  obtain ⟨j, hj, rfl⟩ := h
  have hlength := hj.lt_length
  rw [← splitOwnName_append path start, List.length_append]
  omega

/-- A path that has a correction is lost at a segment, and so needs one. -/
theorem not_corrects_of_reached {start : SObject} {path corrected : String}
    (h : (walk context start path).isReached = true) : ¬Corrects context start path corrected := by
  rintro ⟨message, hwalk⟩
  rw [hwalk] at h
  cases h

/-- Corrections of a path that is lost at a segment are no more than the segments from there on: each is lost
further on than the one before. -/
theorem length_le_of_lost (hcontext : context.IsUndotted) {start : SObject} (hstart : start.IsUndotted)
    {path : String} {i : Nat} (hi : LostAtSegment context start path i) {steps : List String}
    (hsteps : (path :: steps).IsChain (Corrects context start)) : i + steps.length ≤ (segments path).length := by
  induction steps generalizing path i with
  | nil => exact hi.lt_length.le
  | cons corrected steps ih =>
    rw [List.isChain_cons_cons] at hsteps
    obtain ⟨j, hadvances⟩ := advances_of_corrects hcontext hstart hsteps.1
    obtain rfl := hi.unique hadvances.lost
    rcases hadvances.past with hreached | ⟨k, hk, hlost⟩
    · -- A path that is reached has no further correction.
      cases steps with
      | nil => exact hi.lt_length
      | cons another steps =>
        exact absurd (List.isChain_cons_cons.mp hsteps.2).1 (not_corrects_of_reached hreached)
    · have hrest := ih hlost hsteps.2
      rw [hadvances.length] at hrest
      rw [List.length_cons]
      omega

theorem ends_or_corrects (context : Context) (start : SObject) (path : String) :
    Ends context start path ∨ ∃ corrected, Corrects context start path corrected := by
  unfold Ends Corrects
  cases walk context start path with
  | reached field => exact .inl (.inl rfl)
  | lost message corrected =>
    cases corrected with
    | none => exact .inl (.inr ⟨message, rfl⟩)
    | some corrected => exact .inr ⟨corrected, message, rfl⟩

/-- Where chains of corrections have a bound, one of them comes to an end. The induction is on what is left
of the bound. -/
theorem exists_chain_ends {start : SObject} {bound : Nat} {path : String}
    (h : ∀ steps, (path :: steps).IsChain (Corrects context start) → steps.length ≤ bound) :
    ∃ steps last, (path :: steps).IsChain (Corrects context start) ∧
      (path :: steps).getLast? = some last ∧ Ends context start last := by
  induction bound generalizing path with
  | zero =>
    rcases ends_or_corrects context start path with hends | ⟨corrected, hcorrects⟩
    · exact ⟨[], path, List.IsChain.singleton path, rfl, hends⟩
    · have hone := h [corrected] (List.isChain_cons_cons.mpr ⟨hcorrects, .singleton _⟩)
      simp at hone
  | succ bound ih =>
    rcases ends_or_corrects context start path with hends | ⟨corrected, hcorrects⟩
    · exact ⟨[], path, List.IsChain.singleton path, rfl, hends⟩
    · have hrest (steps : List String) (hsteps : (corrected :: steps).IsChain (Corrects context start)) :
          steps.length ≤ bound := by
        have hlonger := h (corrected :: steps) (List.isChain_cons_cons.mpr ⟨hcorrects, hsteps⟩)
        rw [List.length_cons] at hlonger
        omega
      obtain ⟨steps, last, hsteps, hlast, hends⟩ := ih hrest
      refine ⟨corrected :: steps, last, List.isChain_cons_cons.mpr ⟨hcorrects, hsteps⟩, ?_, hends⟩
      rw [List.getLast?_cons_cons]
      exact hlast

/-- In a schema whose names are segments, every correction exchanges just the segment at which the path is
lost, and the corrected path is reached or lost further on; it is reached when that segment was the last.
Corrections taken one after another are no more than the segments of the path, and end with a path that is
reached or has no correction. -/
theorem corrections_advance (hcontext : context.IsUndotted) {start : SObject} (hstart : start.IsUndotted)
    (path : String) :
    (∀ corrected, Corrects context start path corrected → ∃ i, Advances context start path corrected i) ∧
    (∀ steps, (path :: steps).IsChain (Corrects context start) → steps.length ≤ (segments path).length) ∧
    ∃ steps last, (path :: steps).IsChain (Corrects context start) ∧
      (path :: steps).getLast? = some last ∧ Ends context start last := by
  have hbound (steps : List String) (hsteps : (path :: steps).IsChain (Corrects context start)) :
      steps.length ≤ (segments path).length := by
    cases steps with
    | nil => exact Nat.zero_le _
    | cons corrected steps =>
      obtain ⟨i, hadvances⟩ := advances_of_corrects hcontext hstart (List.isChain_cons_cons.mp hsteps).1
      have hlength := length_le_of_lost hcontext hstart hadvances.lost hsteps
      omega
  exact ⟨fun _ => advances_of_corrects hcontext hstart, hbound, exists_chain_ends hbound⟩

def owners : Context :=
  .ofObjects [Sample.account, Sample.user] none [] none

/-- Two misspelt names behind the name of the object are corrected one after the other. -/
theorem corrections_advance_twice :
    (∃ i, Advances owners Sample.account "Account.Ownr.Nmae" "Account.Owner.Nmae" i) ∧
    (∃ i, Advances owners Sample.account "Account.Owner.Nmae" "Account.Owner.Name" i) ∧
    ∀ steps, ("Account.Ownr.Nmae" :: steps).IsChain (Corrects owners Sample.account) → steps.length ≤ 3 := by
  have hcontext : owners.IsUndotted := by decide +kernel
  have hstart : Sample.account.IsUndotted := by decide +kernel
  obtain ⟨hfirst, hbound, -⟩ := corrections_advance hcontext hstart "Account.Ownr.Nmae"
  obtain ⟨hsecond, -, -⟩ := corrections_advance hcontext hstart "Account.Owner.Nmae"
  have hlength : (segments "Account.Ownr.Nmae").length = 3 := by decide
  rw [hlength] at hbound
  have hlink : Corrects owners Sample.account "Account.Ownr.Nmae" "Account.Owner.Nmae" :=
    ⟨"Relationship \"Ownr\" not found on Account. Did you mean \"Owner\" (targets User)?", by decide +kernel⟩
  have hfield : Corrects owners Sample.account "Account.Owner.Nmae" "Account.Owner.Name" :=
    ⟨"Field \"Nmae\" not found on User. Did you mean \"Name\"?", by decide +kernel⟩
  exact ⟨hfirst _ hlink, hsecond _ hfield, hbound⟩

end PathWalk

end Soql
