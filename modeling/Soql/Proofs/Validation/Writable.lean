import Soql.Proofs.Query.Neat
import Soql.Proofs.Validation.Resolves

namespace Soql

open Text Token

def isFieldName (name : String) : Bool :=
  isIdent name && !endsReserved name

theorem isProper_of_isFieldName {name : String} (h : isFieldName name = true) : isProper name = true := by
  rw [isFieldName, Bool.and_eq_true] at h
  rw [isProper, isPath_of_isIdent h.1, h.2]
  rfl

def isExchangeable (text : String) : Bool :=
  !text.toList.contains '\\' && text.toList.head? != some ','

theorem exchangeable_of_isExchangeable {text : String} (h : isExchangeable text = true) : Exchangeable text := by
  rw [isExchangeable, Bool.and_eq_true, Bool.not_eq_true', ← Bool.not_eq_true, List.contains_iff_mem,
    bne_iff_ne] at h
  exact ⟨h.1, h.2⟩

def Field.isWritable (f : Field) : Bool :=
  isFieldName f.name && f.values.all isExchangeable

theorem Field.isWritable_iff {f : Field} :
    f.isWritable = true ↔ isFieldName f.name = true ∧ ∀ value ∈ f.values, isExchangeable value = true := by
  rw [isWritable, Bool.and_eq_true, List.all_eq_true]

/-- The link can be followed in a query: by its name to the children, and by its field, if one is known,
back to the parent. -/
def ChildLink.isWritable (link : ChildLink) : Bool :=
  isIdent link.relationship && isIdent link.object && (link.field.isEmpty || isFieldName link.field)

theorem ChildLink.isWritable_iff {link : ChildLink} : link.isWritable = true ↔ isIdent link.relationship = true ∧
    isIdent link.object = true ∧ (link.field.isEmpty = true ∨ isFieldName link.field = true) := by
  rw [isWritable, Bool.and_eq_true, Bool.and_eq_true, Bool.or_eq_true, and_assoc]

def SObject.isWritable (o : SObject) : Bool :=
  o.fields.all (·.isWritable) && o.parents.all (isIdent ·.relationship) && o.children.all (·.isWritable)

/-- All objects that are known or described can be written in a query, and so can what they describe. -/
def Context.isWritable (context : Context) : Bool :=
  context.known.all isIdent && context.catalog.all fun (name, o) => isIdent name && o.isWritable

namespace Nearest

theorem eq_of_suggested {found : LinkMatch} {link : ParentLink} (h : found.suggested = some link) :
    found = .suggestion link := by
  cases found with
  | suggestion other =>
    rw [LinkMatch.suggested, Option.ite_none_left_eq_some] at h
    rw [Option.some.inj h.2]
  | found links => cases h
  | none => cases h

/-- The nearest item is one of those that are given. -/
theorem mem_of_firstNearest {α : Type} {distance : α → Nat} {best : Option α} {bound : Int} {items : List α}
    {a : α} (h : firstNearest distance best bound items = some a) : best = some a ∨ a ∈ items := by
  induction items generalizing best bound with
  | nil => exact .inl h
  | cons b items ih =>
    rw [firstNearest] at h
    split at h
    · rcases ih h with hbest | hmem
      · cases hbest
        exact .inr List.mem_cons_self
      · exact .inr (List.mem_cons_of_mem b hmem)
    · exact (ih h).imp_right (List.mem_cons_of_mem b)

theorem mem_of_closestName {name found : String} {candidates : List String}
    (h : closestName name candidates = some found) : found ∈ candidates := by
  unfold closestName closest at h
  obtain ⟨⟨candidate, low⟩, hfound, rfl⟩ := Option.map_eq_some_iff.mp h
  have hpool : (candidate, low) ∈
      (candidates.filter (!·.isEmpty)).map fun c => (c, lowerChars c.toList) := by
    simp only [Option.orElse_eq_or, Option.or_eq_some_iff, Option.ite_none_right_eq_some] at hfound
    rcases hfound with hfound | ⟨-, ⟨-, hfound⟩ | ⟨-, ⟨-, hfound⟩ | ⟨-, hfound⟩⟩⟩
    · exact List.mem_of_find?_eq_some hfound
    · exact List.mem_of_find?_eq_some hfound
    · exact List.mem_of_find?_eq_some hfound
    · exact (mem_of_firstNearest hfound).resolve_left nofun
  obtain ⟨c, hc, heq⟩ := List.mem_map.mp hpool
  cases heq
  exact (List.mem_filter.mp hc).1

theorem mem_of_field {name suggestion : String} {fields : List Field}
    (h : (field name fields).suggested = some suggestion) : ∃ f ∈ fields, f.name = suggestion := by
  unfold field at h
  split at h
  · cases h
  · split at h
    · rename_i f hfound
      cases h
      exact ⟨f, List.mem_of_find?_eq_some hfound, rfl⟩
    · split at h
      · rename_i hfound
        cases h
        obtain ⟨f, hf, hname⟩ := List.mem_map.mp (mem_of_closestName hfound)
        exact ⟨f, hf, hname⟩
      · cases h

theorem mem_of_link {part : String} {links : List ParentLink} {l : ParentLink}
    (h : link part links = .suggestion l) : l ∈ links := by
  unfold link at h
  simp only at h
  split at h
  · cases h
  · split at h
    · rename_i hfound
      cases h
      exact List.mem_of_find?_eq_some hfound
    · split at h
      · rename_i hfound
        cases h
        simp only [Option.orElse_eq_or, Option.or_eq_some_iff, Option.ite_none_right_eq_some] at hfound
        rcases hfound with hfound | ⟨-, -, hfound⟩
        · exact (mem_of_firstNearest hfound).resolve_left nofun
        · exact List.mem_of_find?_eq_some hfound
      · cases h

end Nearest

namespace SObject

variable {o : SObject} (h : o.isWritable = true)

include h

theorem isWritable_field : ∀ f ∈ o.fields, f.isWritable = true := by
  simp only [isWritable, Bool.and_eq_true, List.all_eq_true] at h
  exact h.1.1

theorem isWritable_parent : ∀ l ∈ o.parents, isIdent l.relationship = true := by
  simp only [isWritable, Bool.and_eq_true, List.all_eq_true] at h
  exact h.1.2

theorem isWritable_child : ∀ l ∈ o.children, l.isWritable = true := by
  simp only [isWritable, Bool.and_eq_true, List.all_eq_true] at h
  exact h.2

end SObject

namespace Context

variable {context : Context} (h : context.isWritable = true)

include h

theorem isIdent_known : ∀ name ∈ context.known, isIdent name = true := by
  rw [isWritable, Bool.and_eq_true] at h
  exact List.all_eq_true.mp h.1

theorem isWritable_catalog : ∀ entry ∈ context.catalog, isIdent entry.1 = true ∧ entry.2.isWritable = true := by
  rw [isWritable, Bool.and_eq_true] at h
  intro entry hentry
  have hboth := List.all_eq_true.mp h.2 entry hentry
  rwa [Bool.and_eq_true] at hboth

theorem isWritable_get? {name : String} {o : SObject} (ho : context.get? name = some o) : o.isWritable = true := by
  unfold get? Catalog.get? at ho
  split at ho
  · rename_i hfound
    cases ho
    exact (isWritable_catalog h _ (Table.mem_of_find? hfound)).2
  · obtain ⟨entry, hentry, rfl⟩ := Option.map_eq_some_iff.mp ho
    exact (isWritable_catalog h entry (List.mem_of_find?_eq_some hentry)).2

end Context

namespace PathWalk

/-- How a walk may end that has such last parts: at a field that can be written, or with a path in the
place of a path, which ends in the same part or in a field's name. -/
def Outcome.Suggests (parts : List String) : Outcome → Prop
  | .reached field => ∀ f ∈ field, f.isWritable = true
  | .lost _ corrected => ∀ path ∈ corrected, (∀ part ∈ parts, isIdent part = true) →
    ∃ segs, path = joined "." segs ∧ (∀ s ∈ segs, isIdent s = true) ∧
      ∃ last, segs.getLast? = some last ∧ (isFieldName last = true ∨ parts.getLast? = some last)

variable {context : Context}

theorem lostAtField_suggests {before : List String} {name : String} {owner : SObject}
    (howner : owner.isWritable = true) : (lostAtField before name owner).Suggests (before ++ [name]) := by
  unfold lostAtField
  simp only
  split
  · rename_i suggestion hsuggested
    split
    · exact fun path hpath => by cases hpath
    · intro path hpath hparts
      cases hpath
      obtain ⟨f, hf, rfl⟩ := Nearest.mem_of_field hsuggested
      have hname := (Field.isWritable_iff.mp (SObject.isWritable_field howner f hf)).1
      refine ⟨before ++ [f.name], rfl, ?_, f.name, by simp, .inl hname⟩
      intro s hs
      rcases List.mem_append.mp hs with hs | hs
      · exact hparts s (List.mem_append_left _ hs)
      · rw [isFieldName, Bool.and_eq_true] at hname
        rw [List.mem_singleton.mp hs]
        exact hname.1
  · exact fun path hpath => by cases hpath

theorem lostAtLink_suggests {before : List String} {owner part : String} {rest : List String}
    {links : List ParentLink} {found : Nearest.LinkMatch} (hrest : rest ≠ [])
    (hlinks : ∀ l, found = .suggestion l → isIdent l.relationship = true) :
    (lostAtLink before owner part rest links found).Suggests (before ++ part :: rest) := by
  unfold lostAtLink
  simp only
  split
  · rename_i link hsuggested
    have hfound := Nearest.eq_of_suggested hsuggested
    intro path hpath hparts
    cases hpath
    refine ⟨before ++ link.relationship :: rest, rfl, ?_, rest.getLast hrest, ?_, .inr ?_⟩
    · intro s hs
      rcases List.mem_append.mp hs with hs | hs
      · exact hparts s (List.mem_append_left _ hs)
      · rcases List.mem_cons.mp hs with rfl | hs
        · exact hlinks link hfound
        · exact hparts s (List.mem_append_right _ (List.mem_cons_of_mem _ hs))
    · rw [← List.singleton_append, ← List.append_assoc, List.getLast?_append_of_ne_nil _ hrest,
        List.getLast?_eq_some_getLast hrest]
    · rw [← List.singleton_append, ← List.append_assoc, List.getLast?_append_of_ne_nil _ hrest,
        List.getLast?_eq_some_getLast hrest]
  · exact fun path hpath => by cases hpath

theorem lastStep_suggests {before : List String} {owner : SObject} {others : List SObject} {name : String}
    (hobjects : ∀ o ∈ owner :: others, o.isWritable = true) :
    (lastStep before owner others name).Suggests (before ++ [name]) := by
  unfold lastStep
  split
  · rename_i f hfound
    obtain ⟨o, ho, hfield⟩ := List.exists_of_findSome?_eq_some hfound
    intro f' hf'
    cases hf'
    exact SObject.isWritable_field (hobjects o ho) f (List.mem_of_find?_eq_some hfield)
  · split
    · exact fun f hf => by cases hf
    · exact lostAtField_suggests (hobjects owner List.mem_cons_self)

theorem walkFrom_suggests (hcontext : context.isWritable = true) {before : List String} {owner : SObject}
    {others : List SObject} (hobjects : ∀ o ∈ owner :: others, o.isWritable = true) {parts : List String}
    (hparts : parts ≠ []) : (walkFrom context before owner others parts).Suggests (before ++ parts) := by
  induction parts generalizing before owner others with
  | nil => exact absurd rfl hparts
  | cons part parts ih =>
    cases parts with
    | nil => exact lastStep_suggests hobjects
    | cons next rest =>
      rw [walkFrom]
      split
      · rename_i matching hfound
        split
        · exact fun f hf => by cases hf
        · rename_i first more hdescribed
          have hall : ∀ o ∈ first :: more, o.isWritable = true := by
            intro o ho
            rw [← hdescribed] at ho
            obtain ⟨target, -, htarget⟩ := List.mem_filterMap.mp ho
            exact Context.isWritable_get? hcontext htarget
          have hrest : (walkFrom context (before ++ [part]) first more (next :: rest)).Suggests
            (before ++ [part] ++ next :: rest) := ih hall (by simp)
          rwa [List.append_assoc, List.singleton_append] at hrest
      · rename_i found hnot
        apply lostAtLink_suggests (by simp)
        intro l hl
        obtain ⟨o, ho, hlink⟩ := List.mem_flatMap.mp (Nearest.mem_of_link hl)
        exact SObject.isWritable_parent (hobjects o ho) l hlink

theorem splitOwnName_append (path : String) (o : SObject) :
    (splitOwnName path o).1 ++ (splitOwnName path o).2 = segments path := by
  unfold splitOwnName
  split
  · split <;> simp_all
  · rfl

theorem walk_suggests (hcontext : context.isWritable = true) {start : SObject}
    (hstart : start.isWritable = true) (path : String) : (walk context start path).Suggests (segments path) := by
  rw [← splitOwnName_append path start]
  exact walkFrom_suggests hcontext (by simpa using hstart) (splitOwnName_ne_nil path start)

theorem isWritable_of_walk (hcontext : context.isWritable = true) {start : SObject}
    (hstart : start.isWritable = true) {path : String} {f : Field}
    (h : (walk context start path).field? = some f) : f.isWritable = true := by
  have hsuggests := walk_suggests hcontext hstart path
  cases hwalk : walk context start path with
  | reached field =>
    rw [hwalk] at h hsuggests
    exact hsuggests f h
  | lost message corrected =>
    rw [hwalk] at h
    cases h

/-- A lost path is corrected to one that may take its place. -/
theorem renames_of_lost (hcontext : context.isWritable = true) {start : SObject}
    (hstart : start.isWritable = true) {path message corrected : String} (hpath : isPath path = true)
    (h : walk context start path = .lost message (some corrected)) : Renames path corrected := by
  have hsuggests := walk_suggests hcontext hstart path
  rw [h] at hsuggests
  obtain ⟨segs, rfl, hsegs, last, hlast, hends⟩ := hsuggests corrected rfl (List.all_eq_true.mp hpath)
  have hne : segs ≠ [] := by
    rintro rfl
    cases hlast
  refine ⟨hpath, isPath_joined hne hsegs, ?_⟩
  intro hreserved
  rw [endsReserved, lastSegment_joined hsegs hlast] at hreserved
  rcases hends with hname | hsame
  · rw [isFieldName, Bool.and_eq_true, Bool.not_eq_true', endsReserved] at hname
    rw [lastSegment_of_isIdent hname.1, hreserved] at hname
    cases hname.2
  · rw [endsReserved, lastSegment, List.getLastD_eq_getLast?, hsame]
    exact hreserved

end PathWalk

end Soql
