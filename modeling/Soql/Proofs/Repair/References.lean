import Soql.Proofs.Query.Sides
import Soql.Proofs.Repair.Calls
import Soql.Proofs.Repair.Renames

namespace Soql

open Text Token Query

def swapped (old new path : String) : String :=
  if sameLower path old then new else path

def Reference.swapped (old new : String) (r : Reference) : Reference :=
  { r with path := Soql.swapped old new r.path }

def callNames (expr : String) : List String :=
  ((mentions (withoutLiterals expr.toList)).filter (·.called)).map fun m => .ofList m.path

def spotsOf (expr : String) : List Spot :=
  match Token.ofText expr with
  | .ok ts => spots ts
  | .error _ => []

def Text.Spot.path (spot : Spot) : String :=
  .ofList spot.mention.path

section Texts

theorem laid_whole {s : List Char} {ts : List Token} (h : Laid s ts) : ∀ t ∈ ts, t.Whole := by
  induction h with
  | nil => simp
  | space _ ih => exact ih
  | token ht _ _ ih => exact List.forall_mem_cons.mpr ⟨ht, ih⟩

theorem isPath_of_mem_mentions {s : List Char} {m : Mention} (h : m ∈ mentions s) :
    isPath (.ofList m.path) = true := by
  induction hn : s.length using Nat.strong_induction_on generalizing s with
  | _ n ih =>
    cases s with
    | nil => simp at h
    | cons c s =>
      rcases dotted_cases c s with ⟨path, after, hfound⟩ | hc
      · rw [mentions_of_dotted hfound] at h
        rcases List.mem_cons.mp h with rfl | h
        · exact isPath_of_dotted hfound
        · exact ih after.length (hn ▸ length_dotted_lt hfound) h rfl
      · rw [mentions_cons hc] at h
        exact ih s.length (by simp [← hn]) h rfl

theorem mentions_text {expr : String} (h : IsLaid expr) :
    mentions (withoutLiterals expr.toList) = (spotsOf expr).map (·.mention) := by
  obtain ⟨ts, hlaid⟩ := h
  have hread : Token.ofText expr = .ok ts := hlaid.writes.lexes 0
  rw [spotsOf, hread, ← rowMentions_id]
  exact hlaid.mentions_edit tokenEdit_id

theorem isPath_of_spot {expr : String} (h : IsLaid expr) {spot : Spot} (hspot : spot ∈ spotsOf expr) :
    isPath spot.path = true := by
  have hmem : spot.mention ∈ mentions (withoutLiterals expr.toList) := by
    rw [mentions_text h]
    exact List.mem_map_of_mem hspot
  exact isPath_of_mem_mentions hmem

variable {old new : String} (hold : isPath old = true) (hnew : isPath new = true)

section Exchange

include hold

theorem exchangeRun_eq {path : List Char} (h : isPath (.ofList path) = true) :
    String.ofList (exchangeRun old.toList new.toList path) = swapped old new (.ofList path) := by
  have hsame := Action.sameRun_iff hold h
  rw [String.toList_ofList] at hsame
  have hsymm : sameLower old (.ofList path) = sameLower (.ofList path) old := by
    rw [sameLower, sameLower, Bool.beq_comm]
  unfold exchangeRun swapped
  rw [← hsymm]
  by_cases hrun : SameRun old.toList path
  · rw [if_pos hrun, if_pos (hsame.mp hrun), String.ofList_toList]
  · rw [if_neg hrun, if_neg fun heq => hrun (hsame.mpr heq)]

/-- What is mentioned at a spot when the path is exchanged. -/
theorem path_exchanged {spot : Spot} (h : isPath spot.path = true) :
    String.ofList (spot.exchanged old.toList new.toList).path =
      if spot.dated then spot.path else swapped old new spot.path := by
  unfold Spot.exchanged
  split
  · rfl
  · exact exchangeRun_eq hold h

end Exchange

include hold hnew

/-- A path that is exchanged by itself. -/
theorem renamePath_path {path : String} (h : isPath path = true) :
    renamePath old new path = swapped old new path := by
  have hchars := pathText_of_isPath h
  have hne : path.toList ≠ [] := by
    obtain ⟨a, others, heq, -⟩ := hchars.first
    simp [heq]
  have hrun : ∀ c ∈ path.toList, endsRun c = false := by
    intro c hc
    rw [endsRun, joinsPath_of_pathChar (hchars.chars c hc), Bool.not_true]
  have hwhole : renameFrom old.toList (fun _ => new.toList) 0 true (path.toList ++ []) = _ :=
    renameFrom_run (pathText_of_isPath hold) hne hrun .nil
  rw [renameFrom_nil (pathText_of_isPath hold), List.append_nil, List.append_nil] at hwhole
  have hexchange := @exchangeRun_eq _ new hold path.toList (by rwa [String.ofList_toList])
  rw [← hwhole, ← toList_renamePath (pathText_of_isPath hnew).plain, String.ofList_toList,
    String.ofList_toList] at hexchange
  exact hexchange

theorem mentions_renamed {expr : String} (h : IsLaid expr) :
    mentions (withoutLiterals (renamePath old new expr).toList) =
      (spotsOf expr).map (·.exchanged old.toList new.toList) := by
  obtain ⟨ts, hlaid⟩ := h
  have hread : Token.ofText expr = .ok ts := hlaid.writes.lexes 0
  rw [spotsOf, hread, toList_renamePath (pathText_of_isPath hnew).plain,
    ← rowMentions_exchange hold hnew (laid_whole hlaid)]
  exact hlaid.mentions_edit (tokenEdit_renameFrom hold hnew)

/-- The literals of a text are exchanged as the text is. -/
theorem literalBodies_renamed {expr : String} (h : IsLaid expr) :
    literalBodies (renamePath old new expr).toList =
      (literalBodies expr.toList).map (renameFrom old.toList (fun _ => new.toList) 0 true) := by
  obtain ⟨ts, hlaid⟩ := h
  rw [toList_renamePath (pathText_of_isPath hnew).plain]
  exact hlaid.literalBodies_edit (tokenEdit_renameFrom hold hnew)

/-- The names of calls are exchanged as references are. -/
theorem callNames_renamed {expr : String} (h : IsLaid expr) :
    (callNames (renamePath old new expr)).length = (callNames expr).length ∧
      (callNames (renamePath old new expr) = callNames expr ↔
        ∀ spot ∈ spotsOf expr, spot.mention.called = true → spot.dated = false →
          swapped old new spot.path = spot.path) := by
  have hbefore : callNames expr = ((spotsOf expr).filter (·.mention.called)).map Spot.path := by
    rw [callNames, mentions_text h, List.filter_map, List.map_map]
    rfl
  have hafter : callNames (renamePath old new expr) = ((spotsOf expr).filter (·.mention.called)).map
      fun spot => if spot.dated then spot.path else swapped old new spot.path := by
    rw [callNames, mentions_renamed hold hnew h, List.filter_map, List.map_map]
    simp only [Function.comp_def, called_exchanged]
    apply List.map_congr_left
    intro spot hspot
    exact path_exchanged hold (isPath_of_spot h (List.mem_of_mem_filter hspot))
  rw [hbefore, hafter]
  refine ⟨by simp, ?_⟩
  rw [List.map_inj_left]
  simp only [List.mem_filter, and_imp]
  refine forall₃_congr fun spot _ _ => ?_
  cases spot.dated <;> simp

variable (hkold : Vocabulary.isKeyword old = false) (hknew : Vocabulary.isKeyword new = false)

omit hnew in
include hkold in
/-- A reserved word is not exchanged. -/
theorem swapped_of_isKeyword {path : String} (h : isPath path = true) (hword : Vocabulary.isKeyword path = true) :
    swapped old new path = path := by
  unfold swapped
  split
  · rename_i hsame
    rw [isKeyword_congr h hold (by simpa [sameLower] using hsame), hkold] at hword
    cases hword
  · rfl

omit hnew in
include hkold hknew in
/-- No exchange makes a reserved word of a path, or a path of a reserved word. -/
theorem isKeyword_swapped {path : String} (h : isPath path = true) :
    Vocabulary.isKeyword (swapped old new path) = Vocabulary.isKeyword path := by
  unfold swapped
  split
  · rename_i hsame
    rw [hknew, isKeyword_congr h hold (by simpa [sameLower] using hsame), hkold]
  · rfl

include hkold hknew

/-- The references of a text are exchanged but for those in dates. -/
theorem fieldPaths_renamed {expr : String} (h : IsLaid expr) :
    (fieldPaths (renamePath old new expr)).length = (fieldPaths expr).length ∧
      (fieldPaths (renamePath old new expr) = (fieldPaths expr).map (swapped old new) ↔
        ∀ spot ∈ spotsOf expr, spot.mention.called = false → spot.dated = true →
          swapped old new spot.path = spot.path) := by
  -- The same spots are references before and after, so that only the paths at them are to be compared.
  let refers (spot : Spot) : Bool := !spot.mention.called && !Vocabulary.isKeyword spot.path
  have hbefore : fieldPaths expr = ((spotsOf expr).filter refers).map Spot.path := by
    simp only [fieldPaths, dottedPaths_eq, mentions_text h, List.filter_map, List.map_map, List.filter_filter,
      Function.comp_def]
    congr 2
    funext spot
    exact Bool.and_comm _ _
  have hafter : fieldPaths (renamePath old new expr) = ((spotsOf expr).filter refers).map
      fun spot => if spot.dated then spot.path else swapped old new spot.path := by
    have hpath : ∀ spot ∈ spotsOf expr, String.ofList (spot.exchanged old.toList new.toList).path =
        if spot.dated then spot.path else swapped old new spot.path :=
      fun spot hspot => path_exchanged hold (isPath_of_spot h hspot)
    have hrefers : (spotsOf expr).filter (fun spot =>
        !Vocabulary.isKeyword (.ofList (spot.exchanged old.toList new.toList).path) && !spot.mention.called) =
          (spotsOf expr).filter refers := by
      apply List.filter_congr
      intro spot hspot
      rw [hpath spot hspot, Bool.and_comm]
      cases spot.dated with
      | true => rfl
      | false => rw [if_neg Bool.false_ne_true, isKeyword_swapped hold hkold hknew (isPath_of_spot h hspot)]
    simp only [fieldPaths, dottedPaths_eq, mentions_renamed hold hnew h, List.filter_map, List.map_map,
      List.filter_filter, Function.comp_def, called_exchanged, hrefers]
    apply List.map_congr_left
    intro spot hspot
    exact hpath spot (List.mem_of_mem_filter hspot)
  rw [hbefore, hafter]
  refine ⟨by simp, ?_⟩
  rw [List.map_map, List.map_inj_left]
  simp only [List.mem_filter, and_imp, refers, Bool.and_eq_true, Bool.not_eq_true', Function.comp_apply]
  refine forall_congr' fun spot => forall_congr' fun hspot => forall_congr' fun _ => ?_
  constructor
  · intro hsame hdated
    cases hword : Vocabulary.isKeyword spot.path with
    | false => simpa [hdated] using (hsame hword).symm
    | true => exact swapped_of_isKeyword hold hkold (isPath_of_spot h hspot) hword
  · intro hsame _
    cases hdated : spot.dated with
    | false => rfl
    | true => exact (hsame hdated).symm

end Texts

namespace QueryOf

variable {κ : Type}

def clauseTexts (q : QueryOf κ) : List String :=
  Clause.every.flatMap q.texts

/-- The other texts of a query that may hold literals and calls, those of the queries inside it included. -/
def otherTexts (inside : κ → List String) (q : QueryOf κ) : List String :=
  q.having.toList ++ q.leaves.flatMap (fun
    | .compare c => [c.value]
    | .semiJoin j => inside j.query) ++ q.children.flatMap inside

def selectedCalls (inside : κ → List String) (q : QueryOf κ) : List String :=
  q.items.filterMap (fun
    | .call name _ _ => some name
    | _ => none) ++ q.leaves.flatMap (fun
    | .compare _ => []
    | .semiJoin j => inside j.query) ++ q.children.flatMap inside

def selectedFields (q : QueryOf κ) : List String :=
  q.items.filterMap fun
    | .field path _ => some path
    | _ => none

def pathsIn (q : QueryOf κ) : Clause → List String
  | .select => q.items.flatMap SelectItem.fieldPaths
  | .filter => (q.texts .filter).flatMap fieldPaths
  | .group => (q.texts .group).flatMap fieldPaths
  | .order => (q.texts .order).flatMap fieldPaths

theorem references_pathsIn (q : QueryOf κ) :
    q.references = Clause.every.flatMap fun clause => (q.pathsIn clause).map (⟨clause, ·⟩) := by
  rw [references_eq]
  simp [Clause.every, pathsIn]

section MapTexts

variable (change : Clause → String → String) (q : QueryOf κ)

theorem otherTexts_mapTexts (inside : κ → List String) :
    (q.mapTexts change).otherTexts inside = q.otherTexts inside := by
  unfold otherTexts
  rw [children_mapTexts, leaves_mapTexts, List.flatMap_map]
  congr 2
  apply List.flatMap_congr
  intro l _
  cases l <;> rfl

theorem selectedCalls_mapTexts (inside : κ → List String) :
    (q.mapTexts change).selectedCalls inside = q.selectedCalls inside := by
  unfold selectedCalls
  rw [children_mapTexts, leaves_mapTexts, List.flatMap_map]
  congr 2
  · unfold mapTexts
    dsimp only
    rw [List.filterMap_map]
    apply List.filterMap_congr
    intro item _
    cases item <;> rfl
  · apply List.flatMap_congr
    intro l _
    cases l <;> rfl

end MapTexts

end QueryOf

namespace Query

def everyText (q : Query) : List String :=
  q.clauseTexts ++ q.otherTexts fun inner => inner.clauseTexts ++ inner.otherTexts nofun

def literals (q : Query) : List (List Char) :=
  q.everyText.flatMap fun s => literalBodies s.toList

def functionNames (q : Query) : List String :=
  q.selectedCalls (·.selectedCalls nofun) ++ q.everyText.flatMap callNames

/-- The references of a query are renamed, and neither a literal nor the name of a call changes. -/
structure RenamesOnly (old new : String) (q renamed : Query) : Prop where
  references : renamed.references = q.references.map (·.swapped old new)
  literals : literals renamed = literals q
  functionNames : functionNames renamed = functionNames q

/-- Where an exchange of paths in the texts of a query finds references only, and all of them: it changes no
literal, no name of a call outside dates and no selected field with a count, and no reference in a date is to
be exchanged. -/
structure NamesOnly (old new : String) (q : Query) : Prop where
  literals : ∀ expr ∈ q.clauseTexts, ∀ body ∈ literalBodies expr.toList,
    renameFrom old.toList (fun _ => new.toList) 0 true body = body
  calls : ∀ expr ∈ q.clauseTexts, ∀ spot ∈ spotsOf expr, spot.mention.called = true → spot.dated = false →
    swapped old new spot.path = spot.path
  dates : ∀ expr ∈ q.clauseTexts, ∀ spot ∈ spotsOf expr, spot.mention.called = false → spot.dated = true →
    swapped old new spot.path = spot.path
  counts : ∀ path ∈ q.selectedFields, isPath path = true ∨ renamePath old new path = path

/-- Lists joined from pieces of the same lengths are the same just when the pieces are. -/
theorem flatMap_inj {α β : Type} {f g : α → List β} {l : List α} (h : ∀ a ∈ l, (f a).length = (g a).length) :
    l.flatMap f = l.flatMap g ↔ ∀ a ∈ l, f a = g a := by
  induction l with
  | nil => simp
  | cons a l ih =>
    obtain ⟨ha, hl⟩ := List.forall_mem_cons.mp h
    rw [List.flatMap_cons, List.flatMap_cons, List.forall_mem_cons, ← ih hl]
    constructor
    · exact fun heq => List.append_inj heq ha
    · rintro ⟨hfirst, hrest⟩
      rw [hfirst, hrest]

/-- A list joined from pieces is exchanged just when each of the pieces is. -/
theorem flatMap_exchanged {α β : Type} {f g : α → List β} {swap : β → β} {l : List α} {P : α → Prop}
    (h : ∀ a ∈ l, (f a).length = (g a).length ∧ (f a = (g a).map swap ↔ P a)) :
    (l.flatMap f).length = (l.flatMap g).length ∧ (l.flatMap f = (l.flatMap g).map swap ↔ ∀ a ∈ l, P a) := by
  constructor
  · rw [List.length_flatMap, List.length_flatMap]
    exact congrArg List.sum (List.map_congr_left fun a ha => (h a ha).1)
  · have hlength : ∀ a ∈ l, (f a).length = ((g a).map swap).length := by
      intro a ha
      rw [List.length_map, (h a ha).1]
    rw [List.map_flatMap, flatMap_inj hlength]
    exact forall₂_congr fun a ha => (h a ha).2

section Renamed

variable {text old new : String} {q : Query} (hq : parse text = .ok q) (hold : isPath old = true)
  (hnew : isPath new = true)

def renamed (old new : String) (q : Query) : Query :=
  Action.apply q (.swapField old new Clause.every)

theorem renamed_eq (old new : String) (q : Query) : renamed old new q = q.mapTexts fun _ => renamePath old new := by
  have hevery : (fun (clause : Clause) (s : String) =>
      if Clause.every.contains clause then renamePath old new s else s) = fun _ => renamePath old new := by
    funext clause s
    cases clause <;> rfl
  rw [renamed, Action.apply, renameIn_eq, hevery]

theorem clauseTexts_renamed : (renamed old new q).clauseTexts = q.clauseTexts.map (renamePath old new) := by
  rw [QueryOf.clauseTexts, QueryOf.clauseTexts, List.map_flatMap, renamed_eq]
  apply List.flatMap_congr
  intro clause _
  exact texts_mapTexts _ q clause

theorem otherTexts_renamed (inside : InnerQuery → List String) :
    (renamed old new q).otherTexts inside = q.otherTexts inside := by
  rw [renamed_eq, QueryOf.otherTexts_mapTexts]

include hq in
theorem laid_clauseTexts {expr : String} (hexpr : expr ∈ q.clauseTexts) : IsLaid expr := by
  obtain ⟨clause, -, hexpr⟩ := List.mem_flatMap.mp hexpr
  exact (parse_laid hq).texts hexpr

include hq hold hnew

/-- The literals stay just when the exchange changes none of them. -/
theorem literals_renamed_iff : literals (renamed old new q) = literals q ↔
    ∀ expr ∈ q.clauseTexts, ∀ body ∈ literalBodies expr.toList,
      renameFrom old.toList (fun _ => new.toList) 0 true body = body := by
  have hclauses : (renamed old new q).clauseTexts.flatMap (fun s => literalBodies s.toList) =
      (q.clauseTexts.flatMap fun s => literalBodies s.toList).map
        (renameFrom old.toList (fun _ => new.toList) 0 true) := by
    rw [clauseTexts_renamed, List.flatMap_map, List.map_flatMap]
    apply List.flatMap_congr
    intro expr hexpr
    exact literalBodies_renamed hold hnew (laid_clauseTexts hq hexpr)
  rw [literals, literals, everyText, everyText, List.flatMap_append, List.flatMap_append, otherTexts_renamed,
    List.append_left_inj, hclauses]
  nth_rewrite 2 [← List.map_id (q.clauseTexts.flatMap fun s => literalBodies s.toList)]
  rw [List.map_inj_left, List.forall_mem_flatMap]
  rfl

/-- The names of calls stay just when the path is none of them. -/
theorem functionNames_renamed_iff : functionNames (renamed old new q) = functionNames q ↔
    ∀ expr ∈ q.clauseTexts, ∀ spot ∈ spotsOf expr, spot.mention.called = true → spot.dated = false →
      swapped old new spot.path = spot.path := by
  have htexts : ∀ expr ∈ q.clauseTexts, _ :=
    fun expr hexpr => callNames_renamed hold hnew (laid_clauseTexts hq hexpr)
  have hselected : (renamed old new q).selectedCalls (·.selectedCalls nofun) =
      q.selectedCalls (·.selectedCalls nofun) := by
    rw [renamed_eq, QueryOf.selectedCalls_mapTexts]
  rw [functionNames, functionNames, hselected, List.append_right_inj, everyText, everyText, List.flatMap_append,
    List.flatMap_append, otherTexts_renamed, List.append_left_inj, clauseTexts_renamed, List.flatMap_map,
    flatMap_inj fun expr hexpr => (htexts expr hexpr).1]
  exact forall₂_congr fun expr hexpr => (htexts expr hexpr).2

variable (hkold : Vocabulary.isKeyword old = false) (hknew : Vocabulary.isKeyword new = false)

omit hq in
/-- A name that is selected is exchanged as its reference is, unless it stands in front of a count. -/
theorem renamePath_field_iff {path : String} (h : (word path).Whole) :
    renamePath old new path = swapped old new path ↔ isPath path = true ∨ renamePath old new path = path := by
  by_cases hpath : isPath path = true
  · simp [hpath, renamePath_path hold hnew hpath]
  · have hother : sameLower path old = false := by
      rw [← Bool.not_eq_true]
      intro hsame
      exact hpath (IsSide.isPath (.inl h) hold (by simpa [sameLower] using hsame))
    simp [hpath, swapped, hother]

omit hq hold hnew in
theorem spots_field {path : String} (h : (word path).Whole) : ∀ spot ∈ spotsOf path, spot.dated = false := by
  have hread : Token.ofText path = .ok [word path] := (laid_word h).writes.lexes 0
  intro spot hspot
  simp only [spotsOf, hread, spots, List.append_nil] at hspot
  obtain ⟨m, -, rfl⟩ := List.mem_map.mp hspot
  rfl

include hkold hknew

omit hq in
/-- The references of several texts are renamed just when none of them is in a date. -/
theorem pathsOf_renamed {exprs : List String} (h : ∀ expr ∈ exprs, IsLaid expr) :
    ((exprs.map (renamePath old new)).flatMap fieldPaths).length = (exprs.flatMap fieldPaths).length ∧
      ((exprs.map (renamePath old new)).flatMap fieldPaths = (exprs.flatMap fieldPaths).map (swapped old new) ↔
        ∀ expr ∈ exprs, ∀ spot ∈ spotsOf expr, spot.mention.called = false → spot.dated = true →
          swapped old new spot.path = spot.path) := by
  rw [List.flatMap_map]
  exact flatMap_exchanged fun expr hexpr => fieldPaths_renamed hold hnew hkold hknew (h expr hexpr)

omit hq in
/-- The references of a select item are renamed just when none is in a date and none in front of a count. -/
theorem itemPaths_renamed {item : SelectItem InnerQuery} (hitem : ItemLaid item) :
    (item.mapTexts (renamePath old new)).fieldPaths.length = item.fieldPaths.length ∧
      ((item.mapTexts (renamePath old new)).fieldPaths = item.fieldPaths.map (swapped old new) ↔
        (∀ expr ∈ item.texts, ∀ spot ∈ spotsOf expr, spot.mention.called = false → spot.dated = true →
          swapped old new spot.path = spot.path) ∧
        ∀ path a, item = .field path a → isPath path = true ∨ renamePath old new path = path) := by
  cases item with
  | field path a =>
    refine ⟨rfl, ?_⟩
    have hfield : (∀ p b, SelectItem.field (κ := InnerQuery) path a = .field p b →
        isPath p = true ∨ renamePath old new p = p) ↔ isPath path = true ∨ renamePath old new path = path := by
      constructor
      · exact fun h => h path a rfl
      · rintro h p b heq
        cases heq
        exact h
    -- There is no date in a field, and what remains is the path itself.
    have hdates : ∀ expr ∈ (SelectItem.field (κ := InnerQuery) path a).texts, ∀ spot ∈ spotsOf expr,
        spot.mention.called = false → spot.dated = true → swapped old new spot.path = spot.path := by
      intro expr hexpr spot hspot _ hdated
      rw [List.mem_singleton.mp hexpr] at hspot
      rw [spots_field hitem spot hspot] at hdated
      cases hdated
    rw [hfield, ← renamePath_field_iff hold hnew hitem]
    simp only [SelectItem.mapTexts, SelectItem.fieldPaths, List.map_singleton, List.singleton_inj]
    exact ⟨fun h => ⟨hdates, h⟩, fun h => h.2⟩
  | call name args a =>
    have hlaid : ∀ expr ∈ args, IsLaid expr := IsLaid.of_arguments hitem.2
    obtain ⟨hlength, hiff⟩ := pathsOf_renamed hold hnew hkold hknew hlaid
    refine ⟨hlength, hiff.trans ?_⟩
    exact ⟨fun h => ⟨h, by simp⟩, fun h => h.1⟩
  | child c => simp [SelectItem.mapTexts, SelectItem.fieldPaths, SelectItem.texts]
  | typeOf r branches otherwise => simp [SelectItem.mapTexts, SelectItem.fieldPaths, SelectItem.texts]

/-- The references of the select items are renamed just when those of each of them are. -/
theorem pathsIn_select_renamed :
    ((renamed old new q).pathsIn .select).length = (q.pathsIn .select).length ∧
      ((renamed old new q).pathsIn .select = (q.pathsIn .select).map (swapped old new) ↔
        (∀ expr ∈ q.texts .select, ∀ spot ∈ spotsOf expr, spot.mention.called = false → spot.dated = true →
          swapped old new spot.path = spot.path) ∧
        ∀ path ∈ q.selectedFields, isPath path = true ∨ renamePath old new path = path) := by
  have hlaid : ∀ item ∈ q.items, ItemLaid item := (parse_laid hq).items
  have hitems : (renamed old new q).items = q.items.map (·.mapTexts (renamePath old new)) := by
    rw [renamed_eq]
    rfl
  rw [QueryOf.pathsIn, QueryOf.pathsIn, hitems, List.flatMap_map]
  obtain ⟨hlength, hiff⟩ :=
    flatMap_exchanged fun item hitem => itemPaths_renamed hold hnew hkold hknew (hlaid item hitem)
  refine ⟨hlength, hiff.trans ?_⟩
  -- What is asked of each item is asked of all their texts and of all fields among them.
  constructor
  · intro h
    refine ⟨?_, ?_⟩
    · intro expr hexpr
      obtain ⟨item, hitem, hexpr⟩ := List.mem_flatMap.mp hexpr
      exact (h item hitem).1 expr hexpr
    · intro path hpath
      obtain ⟨item, hitem, hfield⟩ := List.mem_filterMap.mp hpath
      cases item with
      | field p a =>
        cases hfield
        exact (h _ hitem).2 path a rfl
      | _ => cases hfield
  · rintro ⟨hdates, hcounts⟩ item hitem
    refine ⟨fun expr hexpr => hdates expr (List.mem_flatMap.mpr ⟨item, hitem, hexpr⟩), ?_⟩
    rintro path a rfl
    exact hcounts path (List.mem_filterMap.mpr ⟨_, hitem, rfl⟩)

/-- The references of a clause are renamed just when the path is found neither in a date nor in front of a count
that is selected. -/
theorem pathsIn_renamed (clause : Clause) :
    ((renamed old new q).pathsIn clause).length = (q.pathsIn clause).length ∧
      ((renamed old new q).pathsIn clause = (q.pathsIn clause).map (swapped old new) ↔
        (∀ expr ∈ q.texts clause, ∀ spot ∈ spotsOf expr, spot.mention.called = false → spot.dated = true →
          swapped old new spot.path = spot.path) ∧
        (clause = .select →
          ∀ path ∈ q.selectedFields, isPath path = true ∨ renamePath old new path = path)) := by
  have htexts : (renamed old new q).texts clause = (q.texts clause).map (renamePath old new) := by
    rw [renamed_eq]
    exact texts_mapTexts _ q clause
  have hlaid : ∀ expr ∈ q.texts clause, IsLaid expr := fun expr hexpr => (parse_laid hq).texts hexpr
  have hpaths := pathsOf_renamed hold hnew hkold hknew hlaid
  rw [← htexts] at hpaths
  cases clause with
  | select =>
    have hselect := pathsIn_select_renamed hq hold hnew hkold hknew
    exact ⟨hselect.1, hselect.2.trans (and_congr_right fun _ => ⟨fun h _ => h, fun h => h rfl⟩)⟩
  | filter | group | order => exact ⟨hpaths.1, hpaths.2.trans ⟨fun h => ⟨h, nofun⟩, fun h => h.1⟩⟩

theorem references_renamed_iff : (renamed old new q).references = q.references.map (·.swapped old new) ↔
    (∀ expr ∈ q.clauseTexts, ∀ spot ∈ spotsOf expr, spot.mention.called = false → spot.dated = true →
      swapped old new spot.path = spot.path) ∧
    ∀ path ∈ q.selectedFields, isPath path = true ∨ renamePath old new path = path := by
  have hclause := pathsIn_renamed hq hold hnew hkold hknew
  have hlength : ∀ clause ∈ Clause.every, (((renamed old new q).pathsIn clause).map (Reference.mk clause)).length =
      (((q.pathsIn clause).map (Reference.mk clause)).map (·.swapped old new)).length := by
    intro clause _
    rw [List.length_map, List.length_map, List.length_map, (hclause clause).1]
  have hswap (clause : Clause) : ((renamed old new q).pathsIn clause).map (Reference.mk clause) =
      ((q.pathsIn clause).map (Reference.mk clause)).map (·.swapped old new) ↔
        (renamed old new q).pathsIn clause = (q.pathsIn clause).map (swapped old new) := by
    have hpaths : ((q.pathsIn clause).map (Reference.mk clause)).map (·.swapped old new) =
        ((q.pathsIn clause).map (swapped old new)).map (Reference.mk clause) := by
      rw [List.map_map, List.map_map]
      rfl
    rw [hpaths]
    exact List.map_inj_right fun a b heq => (Reference.mk.inj heq).2
  rw [QueryOf.references_pathsIn, QueryOf.references_pathsIn, List.map_flatMap, flatMap_inj hlength]
  simp only [hswap, (hclause _).2]
  constructor
  · intro h
    refine ⟨?_, (h .select (by decide)).2 rfl⟩
    intro expr hexpr
    obtain ⟨clause, hmem, hexpr⟩ := List.mem_flatMap.mp hexpr
    exact (h clause hmem).1 expr hexpr
  · rintro ⟨hdates, hcounts⟩ clause hmem
    exact ⟨fun expr hexpr => hdates expr (List.mem_flatMap.mpr ⟨clause, hmem, hexpr⟩), fun _ => hcounts⟩

/-- The correction that names another field renames the references of a query, and nothing else, just when
the field's path is found in references only and in all of them. -/
theorem renamesOnly_iff : RenamesOnly old new q (Action.apply q (.swapField old new Clause.every)) ↔
    NamesOnly old new q := by
  have hreferences := references_renamed_iff hq hold hnew hkold hknew
  have hliterals := literals_renamed_iff hq hold hnew
  have hnames := functionNames_renamed_iff hq hold hnew
  constructor
  · intro h
    obtain ⟨hdates, hcounts⟩ := hreferences.mp h.references
    exact ⟨hliterals.mp h.literals, hnames.mp h.functionNames, hdates, hcounts⟩
  · intro h
    exact ⟨hreferences.mpr ⟨h.dates, h.counts⟩, hliterals.mpr h.literals, hnames.mpr h.calls⟩

end Renamed

instance (old new : String) (q : Query) : Decidable (NamesOnly old new q) :=
  decidable_of_iff
    ((∀ expr ∈ q.clauseTexts, ∀ body ∈ literalBodies expr.toList,
        renameFrom old.toList (fun _ => new.toList) 0 true body = body) ∧
      (∀ expr ∈ q.clauseTexts, ∀ spot ∈ spotsOf expr, spot.mention.called = true → spot.dated = false →
        swapped old new spot.path = spot.path) ∧
      (∀ expr ∈ q.clauseTexts, ∀ spot ∈ spotsOf expr, spot.mention.called = false → spot.dated = true →
        swapped old new spot.path = spot.path) ∧
      ∀ path ∈ q.selectedFields, isPath path = true ∨ renamePath old new path = path)
    ⟨fun ⟨literals, calls, dates, counts⟩ => ⟨literals, calls, dates, counts⟩,
      fun ⟨literals, calls, dates, counts⟩ => ⟨literals, calls, dates, counts⟩⟩

/-- The path stands in all clauses and in several letter cases, and in the value of a condition as well. -/
def namedEverywhere : String :=
  "SELECT FORMAT(name), Owner.Name FROM Account WHERE NAME = 'Name' GROUP BY Name ORDER BY Name"

theorem renamesOnly_iff_everywhere : ∃ q, parse namedEverywhere = .ok q ∧ NamesOnly "Name" "Title" q ∧
    (RenamesOnly "Name" "Title" q (Action.apply q (.swapField "Name" "Title" Clause.every)) ↔
      NamesOnly "Name" "Title" q) := by
  obtain ⟨q, hq, hnames⟩ := exists_ok_of_any (r := parse namedEverywhere)
    (p := fun q => decide (NamesOnly "Name" "Title" q)) (by decide +kernel)
  exact ⟨q, hq, of_decide_eq_true hnames,
    renamesOnly_iff hq (by decide +kernel) (by decide +kernel) (by decide +kernel) (by decide +kernel)⟩

/-- The correction of a path in a query does not just rename its references. -/
def Strays (text old new : String) : Prop :=
  isPath old = true ∧ isPath new = true ∧ Vocabulary.isKeyword old = false ∧ Vocabulary.isKeyword new = false ∧
    ∃ q, parse text = .ok q ∧ ¬RenamesOnly old new q (Action.apply q (.swapField old new Clause.every))

theorem strays_of_differs {text old new : String} (hpaths : isPath old = true ∧ isPath new = true ∧
      Vocabulary.isKeyword old = false ∧ Vocabulary.isKeyword new = false)
    (hdiffer : (parse text).toOption.any (fun q =>
      let q' := Action.apply q (.swapField old new Clause.every)
      q'.references != q.references.map (·.swapped old new) || literals q' != literals q ||
        functionNames q' != functionNames q) = true) : Strays text old new := by
  obtain ⟨hold, hnew, hkold, hknew⟩ := hpaths
  obtain ⟨q, hq, hdiffer⟩ := exists_ok_of_any hdiffer
  refine ⟨hold, hnew, hkold, hknew, q, hq, ?_⟩
  intro h
  simp [h.references, h.literals, h.functionNames] at hdiffer

/-- In a literal, in the name of a call, in front of a count, and in a date, in which a reference is missed. -/
theorem strays_everywhere : Strays "SELECT Name, FORMAT('Name') FROM Account" "Name" "Title" ∧
    Strays "SELECT Id FROM Account WHERE Foo(Id) = 1" "Foo" "Bar" ∧
    Strays "SELECT Name:5 FROM Account" "Name" "Title" ∧
    Strays "SELECT FORMAT(2024-01-01T00:00:00Z) FROM Account" "Z" "Name" :=
  ⟨strays_of_differs (by decide +kernel) (by decide +kernel),
    strays_of_differs (by decide +kernel) (by decide +kernel),
    strays_of_differs (by decide +kernel) (by decide +kernel),
    strays_of_differs (by decide +kernel) (by decide +kernel)⟩

end Query

end Soql
