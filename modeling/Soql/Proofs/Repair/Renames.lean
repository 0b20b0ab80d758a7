import Soql.Proofs.Query.ClauseTexts
import Soql.Proofs.Repair.SemiJoins
import Soql.Proofs.Text.Swap

namespace Soql

open Text

section Texts

variable {κ : Type}

def SelectItem.mapTexts (change : String → String) : SelectItem κ → SelectItem κ
  | .field path a => .field (change path) a
  | .call name args a => .call name (args.map change) a
  | item => item

def QueryOf.mapTexts (change : Clause → String → String) (q : QueryOf κ) : QueryOf κ :=
  { q with
    items := q.items.map (·.mapTexts (change .select))
    filter := q.filter.map (·.mapLeaves fun l => l.withField (change .filter l.field))
    groupBy := q.groupBy.map (change .group)
    orderBy := q.orderBy.map fun k => { k with field := change .order k.field } }

theorem mapTexts_item (first second : String → String) (item : SelectItem κ) :
    (item.mapTexts first).mapTexts second = item.mapTexts fun s => second (first s) := by
  cases item with
  | call name args a => simp [SelectItem.mapTexts]
  | _ => rfl

theorem mapTexts_mapTexts (first second : Clause → String → String) (q : QueryOf κ) :
    (q.mapTexts first).mapTexts second = q.mapTexts fun clause s => second clause (first clause s) := by
  have hleaves : (fun l : Leaf κ => l.withField (second .filter l.field)) ∘
      (fun l : Leaf κ => l.withField (first .filter l.field)) =
        fun l => l.withField (second .filter (first .filter l.field)) := by
    funext l
    cases l <;> rfl
  simp only [QueryOf.mapTexts, List.map_map, Option.map_map, Function.comp_def, mapTexts_item, mapLeaves_mapLeaves]
  simp only [← hleaves, Function.comp_def]

section Unchanged

theorem items_id (items : List (SelectItem κ)) : items.map (·.mapTexts fun s => s) = items := by
  have hitem : (fun item : SelectItem κ => item.mapTexts fun s => s) = id := by
    funext item
    cases item with
    | call name args a => simp [SelectItem.mapTexts]
    | _ => rfl
  rw [hitem, List.map_id]

theorem filter_id (filter : Option (Filter κ)) :
    filter.map (·.mapLeaves fun l => l.withField l.field) = filter := by
  have hleaf : (fun l : Leaf κ => l.withField l.field) = id := by
    funext l
    cases l <;> rfl
  cases filter with
  | none => rfl
  | some f => rw [Option.map_some, hleaf, mapLeaves_id]

theorem mapTexts_id (q : QueryOf κ) : (q.mapTexts fun _ s => s) = q := by
  obtain ⟨object, items, scope, filter, groupBy, having, orderBy, limit, offset, tolerant⟩ := q
  simp only [QueryOf.mapTexts, items_id, filter_id, List.map_id']

end Unchanged

section Parts

variable (change : Clause → String → String) (q : QueryOf κ)

theorem leaves_mapTexts :
    (q.mapTexts change).leaves = q.leaves.map fun l => l.withField (change .filter l.field) := by
  unfold QueryOf.leaves QueryOf.mapTexts
  cases q.filter with
  | none => rfl
  | some f => exact leaves_mapLeaves _ f

theorem texts_mapTexts (clause : Clause) : (q.mapTexts change).texts clause = (q.texts clause).map (change clause) := by
  cases clause with
  | select =>
    simp only [QueryOf.texts, QueryOf.mapTexts, List.flatMap_map, List.map_flatMap]
    apply List.flatMap_congr
    intro item _
    cases item <;> rfl
  | filter =>
    simp only [QueryOf.texts, leaves_mapTexts, List.map_map]
    apply List.map_congr_left
    intro l _
    cases l <;> rfl
  | group => rfl
  | order => simp [QueryOf.texts, QueryOf.mapTexts]

theorem children_mapTexts : (q.mapTexts change).children = q.children := by
  unfold QueryOf.children QueryOf.mapTexts
  dsimp only
  rw [List.filterMap_map]
  apply List.filterMap_congr
  intro item _
  cases item <;> rfl

end Parts

/-- One path is exchanged in the texts of some clauses. -/
theorem renameIn_eq (clauses : List Clause) (old new : String) (q : QueryOf κ) :
    q.renameIn clauses old new =
      q.mapTexts fun clause s => if clauses.contains clause then renamePath old new s else s := by
  have hitem : QueryOf.renameItem (κ := κ) old new = (·.mapTexts (renamePath old new)) := by
    funext item
    cases item <;> rfl
  rw [QueryOf.renameIn, QueryOf.mapTexts, QueryOf.mk.injEq]
  refine ⟨rfl, ?_, rfl, ?_, ?_, rfl, ?_, rfl, rfl, rfl⟩
  · cases clauses.contains Clause.select with
    | true => exact congrArg (q.items.map ·) hitem
    | false => exact (items_id q.items).symm
  · cases clauses.contains Clause.filter with
    | true => rfl
    | false => exact (filter_id q.filter).symm
  · cases clauses.contains Clause.group with
    | true => rfl
    | false => exact (List.map_id' q.groupBy).symm
  · cases clauses.contains Clause.order with
    | true => rfl
    | false => exact (List.map_id' q.orderBy).symm

end Texts

structure PathChange where
  old : String
  new : String
  clauses : List Clause
  deriving DecidableEq, Repr

namespace Action

def pathChange? : Action → Option PathChange
  | swapField old new clauses => some ⟨old, new, clauses⟩
  | fixPath old corrected => some ⟨old, corrected, Clause.every⟩
  | _ => none

theorem newPath?_of_pathChange? {a : Action} {p : PathChange} {new : String} (hp : p ∈ a.pathChange?)
    (hnew : new ∈ a.newPath?) : new = p.new := by
  cases a with
  | swapField old path clauses =>
    cases hp
    cases hnew
    rfl
  | fixPath old path =>
    cases hp
    cases hnew
    rfl
  | _ => cases hp

def changeText (clause : Clause) (s : String) (a : Action) : String :=
  match a.pathChange? with
  | some p => if p.clauses.contains clause then renamePath p.old p.new s else s
  | none => s

/-- Corrections that exchange identifiers joined by points, none of them the same path as another one, and
none for a path that another one exchanges, in any letter case. -/
structure PathChanges (actions : List Action) : Prop where
  paths : ∀ a ∈ actions, ∃ p ∈ a.pathChange?, isPath p.old = true ∧ isPath p.new = true
  apart : ∀ a ∈ actions, ∀ b ∈ actions, a ≠ b → ∀ p ∈ a.pathChange?, ∀ p' ∈ b.pathChange?,
    sameLower p.old p'.old = false ∧ sameLower p.new p'.old = false

def exchangesIn (clause : Clause) (actions : List Action) : List Exchange :=
  actions.filterMap fun a => a.pathChange?.bind fun p =>
    if p.clauses.contains clause then some (p.old.toList, p.new.toList) else none

theorem mem_exchangesIn {clause : Clause} {actions : List Action} {e : Exchange} :
    e ∈ exchangesIn clause actions ↔ ∃ a ∈ actions, ∃ p ∈ a.pathChange?,
      p.clauses.contains clause = true ∧ e = (p.old.toList, p.new.toList) := by
  simp only [exchangesIn, List.mem_filterMap, Option.bind_eq_some_iff, Option.mem_def]
  refine exists_congr fun a => and_congr_right fun _ => exists_congr fun p => and_congr_right fun _ => ?_
  by_cases hclause : p.clauses.contains clause = true
  · rw [if_pos hclause, Option.some.injEq]
    exact ⟨fun h => ⟨hclause, h.symm⟩, fun h => h.2.symm⟩
  · rw [if_neg hclause]
    exact ⟨nofun, fun h => absurd h.1 hclause⟩

theorem apply_pathChange {a : Action} (h : a.pathChange?.isSome = true) (q : Query) :
    a.apply q = q.mapTexts fun clause s => a.changeText clause s := by
  cases a with
  | swapField old new clauses => exact renameIn_eq clauses old new q
  | fixPath old corrected => exact renameIn_eq Clause.every old corrected q
  | _ => cases h

theorem foldl_pathChanges {actions : List Action} (h : ∀ a ∈ actions, a.pathChange?.isSome = true) (q : Query) :
    actions.foldl apply q = q.mapTexts fun clause s => actions.foldl (changeText clause) s := by
  induction actions generalizing q with
  | nil => exact (mapTexts_id q).symm
  | cons a actions ih =>
    obtain ⟨ha, hrest⟩ := List.forall_mem_cons.mp h
    rw [List.foldl_cons, ih hrest, apply_pathChange ha, mapTexts_mapTexts]
    rfl

theorem foldl_changeText {actions : List Action} (h : ∀ a ∈ actions, ∀ p ∈ a.pathChange?, '\\' ∉ p.new.toList)
    (clause : Clause) (s : String) :
    (actions.foldl (changeText clause) s).toList = renameAll (exchangesIn clause actions) s.toList := by
  induction actions generalizing s with
  | nil => rfl
  | cons a actions ih =>
    obtain ⟨ha, hrest⟩ := List.forall_mem_cons.mp h
    rw [List.foldl_cons, ih hrest, changeText]
    -- Only an exchange of paths in this clause is among those that are made in the text.
    cases hchange : a.pathChange? with
    | none =>
      have hcons : exchangesIn clause (a :: actions) = exchangesIn clause actions := by
        rw [exchangesIn, List.filterMap_cons, hchange]
        rfl
      rw [hcons]
    | some p =>
      by_cases hclause : p.clauses.contains clause = true
      · have hcons : exchangesIn clause (a :: actions) =
            (p.old.toList, p.new.toList) :: exchangesIn clause actions := by
          rw [exchangesIn, List.filterMap_cons, hchange, Option.bind_some, if_pos hclause]
          rfl
        dsimp only
        rw [hcons, if_pos hclause, toList_renamePath (ha p hchange)]
        rfl
      · have hcons : exchangesIn clause (a :: actions) = exchangesIn clause actions := by
          rw [exchangesIn, List.filterMap_cons, hchange, Option.bind_some, if_neg hclause]
          rfl
        dsimp only
        rw [hcons, if_neg hclause]

/-- A search takes identifiers joined by points for each other just when they differ in letter case only. -/
theorem sameRun_iff {a b : String} (ha : isPath a = true) (hb : isPath b = true) :
    SameRun a.toList b.toList ↔ sameLower a b = true := by
  -- In ASCII, to which paths are confined, a search folds each letter to its small one.
  have hlower {w : String} (hw : isPath w = true) : (lower w).toList = w.toList.map fold := by
    rw [toList_lower (sigmaFree_of_isPath hw)]
    have hascii := toNat_lt_of_isPath hw
    generalize w.toList = s at hascii
    induction s with
    | nil => rfl
    | cons c s ih =>
      obtain ⟨hc, hs⟩ := List.forall_mem_cons.mp hascii
      have hchar : lowerRun c = [fold c] := by
        have hall := Token.of_ascii (p := fun c => lowerRun c == [fold c]) (by decide) hc
        exact eq_of_beq hall
      rw [List.flatMap_cons, List.map_cons, hchar, ih hs]
      rfl
  rw [sameLower, beq_iff_eq, ← String.toList_inj, hlower ha, hlower hb]
  rfl

namespace PathChanges

variable {actions : List Action} (h : PathChanges actions)

include h

theorem isSome : ∀ a ∈ actions, a.pathChange?.isSome = true := by
  intro a ha
  obtain ⟨p, hp, -⟩ := h.paths a ha
  exact Option.isSome_of_eq_some hp

theorem exchangeables (clause : Clause) : Exchangeables (exchangesIn clause actions) := by
  intro e he
  obtain ⟨a, ha, p, hp, -, rfl⟩ := mem_exchangesIn.mp he
  obtain ⟨p', hp', hold, hnew⟩ := h.paths a ha
  obtain rfl := Option.mem_unique hp hp'
  exact ⟨pathText_of_isPath hold, pathText_of_isPath hnew⟩

theorem independent (clause : Clause) : Independent (exchangesIn clause actions) := by
  intro e he f hf hef
  obtain ⟨a, ha, p, hp, -, rfl⟩ := mem_exchangesIn.mp he
  obtain ⟨b, hb, p', hp', -, rfl⟩ := mem_exchangesIn.mp hf
  -- Different exchanges come from different corrections, which are about different paths.
  have hab : a ≠ b := by
    rintro rfl
    exact hef (by rw [Option.mem_unique hp hp'])
  obtain ⟨hold, hnew⟩ := h.apart a ha b hb hab p hp p' hp'
  obtain ⟨p₁, hp₁, hpaths⟩ := h.paths a ha
  obtain ⟨p₂, hp₂, hpaths'⟩ := h.paths b hb
  obtain rfl := Option.mem_unique hp hp₁
  obtain rfl := Option.mem_unique hp' hp₂
  constructor
  · intro hsame
    rw [(sameRun_iff hpaths.1 hpaths'.1).mp hsame] at hold
    cases hold
  · intro hsame
    rw [(sameRun_iff hpaths.2 hpaths'.1).mp hsame.symm] at hnew
    cases hnew

theorem plain : ∀ a ∈ actions, ∀ p ∈ a.pathChange?, '\\' ∉ p.new.toList := by
  intro a ha p hp
  obtain ⟨p', hp', hpaths⟩ := h.paths a ha
  obtain rfl := Option.mem_unique hp hp'
  exact (pathText_of_isPath hpaths.2).plain

theorem congr {others : List Action} (hmem : ∀ a, a ∈ actions ↔ a ∈ others) : PathChanges others where
  paths := fun a ha => h.paths a ((hmem a).mpr ha)
  apart := fun a ha b hb => h.apart a ((hmem a).mpr ha) b ((hmem b).mpr hb)

/-- What the corrections do to a text of a clause depends on which they are only. -/
theorem foldl_congr {others : List Action} (hmem : ∀ a, a ∈ actions ↔ a ∈ others) (clause : Clause) (s : String) :
    actions.foldl (changeText clause) s = others.foldl (changeText clause) s := by
  apply String.toList_injective
  rw [foldl_changeText h.plain, foldl_changeText (h.congr hmem).plain]
  apply renameAll_congr (h.exchangeables clause) (h.independent clause)
  intro e
  simp only [mem_exchangesIn, hmem]

theorem foldl_again (clause : Clause) (s : String) :
    actions.foldl (changeText clause) (actions.foldl (changeText clause) s) =
      actions.foldl (changeText clause) s := by
  apply String.toList_injective
  rw [foldl_changeText h.plain, foldl_changeText h.plain]
  exact renameAll_again (h.exchangeables clause) (h.independent clause) s.toList

/-- The corrections change each text in its clause. -/
theorem applyAll_eq (q : Query) :
    applyAll q actions = q.mapTexts fun clause s => actions.foldl (changeText clause) s := by
  have hordered := h.congr fun a => (mem_inOrder : a ∈ inOrder actions ↔ a ∈ actions).symm
  rw [applyAll, foldl_pathChanges hordered.isSome]
  congr 1
  funext clause s
  exact hordered.foldl_congr (fun a => mem_inOrder) clause s

theorem performAll_eq (q : Query) :
    performAll q actions = .ok (q.mapTexts fun clause s => actions.foldl (changeText clause) s) := by
  rw [← h.applyAll_eq]
  apply performAll_plain
  intro a ha new hnew
  obtain ⟨p, hp, -⟩ := h.paths a ha
  rw [newPath?_of_pathChange? hp hnew]
  exact h.plain a ha p hp

end PathChanges

/-- A query with no text on the left side of any condition: the rest of its filter. -/
def filterShape (q : Query) : Option (Filter InnerQuery) :=
  q.filter.map (·.mapLeaves (·.withField ""))

theorem mapTexts_filterShape (change : Clause → String → String) (q : Query) :
    filterShape (q.mapTexts change) = filterShape q := by
  unfold filterShape QueryOf.mapTexts
  dsimp only
  rw [Option.map_map]
  congr 1
  funext f
  rw [Function.comp, mapLeaves_mapLeaves]
  congr 1
  funext l
  cases l <;> rfl

/-- Corrections that exchange different paths, none for a path that is exchanged as well, make the same query
in any order and any number of times, and make nothing of it when they are made again. They keep the number of
select items, the tree of the filter with its operators, values and semi-joins, the queries for child records,
and everything apart from the texts that name fields. -/
theorem applyAll_pathChanges {actions : List Action} (h : PathChanges actions) (q : Query) :
    (∀ others, (∀ a, a ∈ actions ↔ a ∈ others) → performAll q others = .ok (applyAll q actions)) ∧
      performAll (applyAll q actions) actions = .ok (applyAll q actions) ∧
      (applyAll q actions).items.length = q.items.length ∧
      (applyAll q actions).children = q.children ∧
      filterShape (applyAll q actions) = filterShape q ∧
      { applyAll q actions with
        items := q.items, filter := q.filter, groupBy := q.groupBy, orderBy := q.orderBy } = q := by
  refine ⟨?_, ?_, ?_, ?_, ?_, ?_⟩
  · intro others hmem
    have hmade := (h.congr hmem).performAll_eq q
    have hsame (clause : Clause) (s : String) :
        others.foldl (changeText clause) s = actions.foldl (changeText clause) s :=
      (h.foldl_congr hmem clause s).symm
    simpa only [hsame, ← h.applyAll_eq] using hmade
  · have hagain := h.performAll_eq (applyAll q actions)
    simpa only [h.applyAll_eq q, mapTexts_mapTexts, h.foldl_again] using hagain
  · rw [h.applyAll_eq]
    exact List.length_map _
  · rw [h.applyAll_eq, children_mapTexts]
  · rw [h.applyAll_eq, mapTexts_filterShape]
  · rw [h.applyAll_eq]
    rfl

def ownerChanges : List Action :=
  [.fixPath "Owner" "Account.Owner", .swapField "Owner.Name" "Name" Clause.every]

def ownerQuery : Query where
  object := "Case"
  items := [.field "Owner" none, .call "COUNT" ["owner.name"] none]
  filter := some (.negation (.leaf (.compare ⟨"OWNER.Name", .equal, "'Owner'"⟩)))

theorem applyAll_pathChanges_owner : PathChanges ownerChanges ∧
    (applyAll ownerQuery ownerChanges).items = [.field "Account.Owner" none, .call "COUNT" ["Name"] none] ∧
    (∀ others, (∀ a, a ∈ ownerChanges ↔ a ∈ others) →
      performAll ownerQuery others = .ok (applyAll ownerQuery ownerChanges)) ∧
    performAll (applyAll ownerQuery ownerChanges) ownerChanges = .ok (applyAll ownerQuery ownerChanges) ∧
    (applyAll ownerQuery ownerChanges).items.length = ownerQuery.items.length ∧
    (applyAll ownerQuery ownerChanges).children = ownerQuery.children ∧
    filterShape (applyAll ownerQuery ownerChanges) = filterShape ownerQuery ∧
    { applyAll ownerQuery ownerChanges with
      items := ownerQuery.items, filter := ownerQuery.filter, groupBy := ownerQuery.groupBy,
      orderBy := ownerQuery.orderBy } = ownerQuery := by
  have hchanges : PathChanges ownerChanges := ⟨by decide +kernel, by decide +kernel⟩
  exact ⟨hchanges, by decide +kernel, applyAll_pathChanges hchanges ownerQuery⟩

end Action

end Soql
