import Mathlib.Logic.Function.Iterate
import Soql.Context.Assembly
import Soql.Proofs.Schema.Growth

/-!
The rounds in which the objects are fetched that a query refers to. An object behind a link is only known
once the object in front of it is described, so that each round goes one link further. There are as many
rounds as `fetchRounds`, and a path with more links than that ends in objects that stay away.
-/

namespace Soql

open Text

/-- How far a path leads, one link further than all its objects are described, is told before what lies
behind is fetched. -/
theorem Catalog.Grows.pathTargets_take {graph : SchemaGraph} {tenant : Tenant} {catalog grown : Catalog}
    (h : catalog.Grows graph tenant grown) (current : List SObject) (parts : List String) (steps : Nat)
    (hsteps : catalog.Describes graph tenant (pathTargets catalog current (parts.take steps))) :
    pathTargets grown current (parts.take (steps + 1)) =
      pathTargets catalog current (parts.take (steps + 1)) := by
  induction steps generalizing current parts with
  | zero =>
    cases parts with
    | nil => rfl
    | cons part rest => cases current <;> simp [pathTargets, stepTargets]
  | succ steps ih =>
    cases parts with
    | nil => rfl
    | cons part rest =>
      cases current with
      | nil => simp [pathTargets]
      | cons o others =>
        simp only [List.take_succ_cons, pathTargets] at hsteps ⊢
        -- The targets of this link are looked up as before, so that the walk goes on from the same objects.
        obtain ⟨htargets, hbehind⟩ := List.forall_mem_append.mp hsteps
        have hnext : (stepTargets grown (o :: others) part).2 =
            (stepTargets catalog (o :: others) part).2 :=
          List.filterMap_congr fun name hname => h.get?_eq (htargets name hname)
        rw [hnext, ih _ rest hbehind]
        rfl

section Rounds

variable (graph : SchemaGraph) (tenant : Tenant) (q : Query) (context : Context)

def fetchedOnce (catalog : Catalog) : Catalog :=
  Table.putAll (((missingObjects q context catalog).filterMap (graph.detail tenant)).map fun o => (o.name, o))
    catalog

variable {graph} {tenant} {q} {context}

/-- What a graph describes under a name bears the name in some letter case. -/
theorem SchemaGraph.Keyed.lower_detail (hgraph : graph.Keyed) {name : String} {o : SObject}
    (ho : graph.detail tenant name = some o) : lower o.name = lower name := by
  obtain ⟨key, hentry, hsame⟩ := Catalog.mem_of_get? ho
  rw [hgraph tenant _ hentry]
  exact hsame

theorem mem_missingObjects {catalog : Catalog} {name : String} :
    name ∈ missingObjects q context catalog ↔
      name ∈ neededObjects q catalog ∧ catalog.get? name = none ∧ context.isKnown name = true := by
  rw [missingObjects, List.mem_filter, Bool.and_eq_true, Option.isNone_iff_eq_none]

/-- A round adds objects of the graph that were missing, and all of them. -/
theorem fetchedOnce_eq_append (hgraph : graph.Keyed) (tenant : Tenant) (q : Query) (context : Context)
    (catalog : Catalog) :
    ∃ added, fetchedOnce graph tenant q context catalog = catalog ++ added ∧
      (∀ key ∈ Catalog.names added, catalog.get? key = none ∧ (graph.detail tenant key).isSome = true) ∧
      ∀ name ∈ missingObjects q context catalog, (graph.detail tenant name).isSome = true →
        ∃ key ∈ Catalog.names added, lower key = lower name := by
  -- What is fetched bears, in its own letter case, a name under which the catalog had nothing.
  have hmissing : ∀ o ∈ (missingObjects q context catalog).filterMap (graph.detail tenant),
      catalog.get? o.name = none ∧ (graph.detail tenant o.name).isSome = true := by
    intro o ho
    obtain ⟨name, hname, hdetail⟩ := List.mem_filterMap.mp ho
    have hsame := hgraph.lower_detail hdetail
    constructor
    · rw [← Option.not_isSome_iff_eq_none, Catalog.get?_isSome_congr hsame, Option.not_isSome_iff_eq_none]
      exact (mem_missingObjects.mp hname).2.1
    · rw [SchemaGraph.detail, Catalog.get?_isSome_congr hsame]
      exact Option.isSome_of_eq_some hdetail
  have hnew : ∀ entry ∈ ((missingObjects q context catalog).filterMap (graph.detail tenant)).map
      fun o => (o.name, o), entry.1 ∉ catalog.map Prod.fst := by
    intro entry hentry hkey
    obtain ⟨o, ho, rfl⟩ := List.mem_map.mp hentry
    have hheld := Catalog.get?_isSome.mpr ⟨o.name, hkey, rfl⟩
    rw [(hmissing o ho).1] at hheld
    cases hheld
  obtain ⟨added, hadded, hkeys⟩ := Table.putAll_new hnew
  simp only [List.map_map, List.mem_map, Function.comp_apply] at hkeys
  refine ⟨added, hadded, fun key hkey => ?_, fun name hname hdetail => ?_⟩
  · obtain ⟨o, ho, rfl⟩ := (hkeys key).mp (List.mem_map.mp hkey)
    exact hmissing o ho
  · obtain ⟨o, ho⟩ := Option.isSome_iff_exists.mp hdetail
    refine ⟨o.name, ?_, hgraph.lower_detail ho⟩
    exact List.mem_map.mpr ((hkeys o.name).mpr ⟨o, List.mem_filterMap.mpr ⟨name, hname, ho⟩, rfl⟩)

theorem grows_fetchedOnce (hgraph : graph.Keyed) (tenant : Tenant) (q : Query) (context : Context)
    (catalog : Catalog) :
    catalog.Grows graph tenant (fetchedOnce graph tenant q context catalog) := by
  obtain ⟨added, hadded, hkeys, -⟩ := fetchedOnce_eq_append hgraph tenant q context catalog
  exact ⟨added, hadded, hkeys⟩

/-- The tenant is known to have every object that the graph has. -/
def KnowsAll (graph : SchemaGraph) (tenant : Tenant) (context : Context) : Prop :=
  ∀ name ∈ (graph.summaries tenant).map (·.name), name ∈ context.known

theorem KnowsAll.isKnown (h : KnowsAll graph tenant context) (hgraph : graph.Keyed) {name : String}
    (hname : (graph.detail tenant name).isSome = true) : context.isKnown name = true := by
  obtain ⟨key, hkey, hsame⟩ := Catalog.get?_isSome.mp hname
  obtain ⟨entry, hentry, rfl⟩ := List.mem_map.mp hkey
  have hlisted : entry.1 ∈ (graph.summaries tenant).map (·.name) := by
    rw [SchemaGraph.summaries, List.map_map]
    exact List.mem_map.mpr ⟨entry, hentry, hgraph tenant entry hentry⟩
  rw [Context.isKnown, Bool.or_eq_true, List.any_eq_true]
  exact .inl ⟨entry.1, h _ hlisted, beq_iff_eq.mpr hsame⟩

/-- What was needed before a round is described after it. -/
theorem describes_fetchedOnce (hgraph : graph.Keyed) (hknown : KnowsAll graph tenant context)
    (catalog : Catalog) :
    (fetchedOnce graph tenant q context catalog).Describes graph tenant (neededObjects q catalog) := by
  intro name hname hdetail
  cases hheld : catalog.get? name with
  | some o => exact Option.isSome_of_eq_some ((grows_fetchedOnce hgraph tenant q context catalog).get?_of_some hheld)
  | none =>
    -- The tenant is known to have the object, so that it is asked for in this round.
    obtain ⟨added, hadded, -, hmissing⟩ := fetchedOnce_eq_append hgraph tenant q context catalog
    obtain ⟨key, hkey, hsame⟩ :=
      hmissing name (mem_missingObjects.mpr ⟨hname, hheld, hknown.isKnown hgraph hdetail⟩) hdetail
    rw [hadded, Catalog.get?_isSome, Catalog.names, List.map_append]
    exact ⟨key, List.mem_append_right _ hkey, hsame⟩

def linkedWithin (steps : Nat) (q : Query) (main : SObject) (catalog : Catalog) : List String :=
  q.references.flatMap fun r => pathTargets catalog [main] ((segments r.path).dropLast.take steps)

/-- The objects that a query refers to, of its paths only the first links counted. -/
def neededWithin (steps : Nat) (q : Query) (catalog : Catalog) : List String :=
  let direct := q.object :: q.semiJoins.map (·.query.object)
  let related := match catalog.get? q.object with
    | none => []
    | some main =>
      (q.children.filterMap fun c => (main.child? c.object).map (·.object)) ++
      (q.typeOfs.flatMap fun (relationship, _) => (main.parentsBy relationship).map (·.target)) ++
      linkedWithin steps q main catalog
  (direct ++ related).eraseDups

/-- Where no path has more links, that is all that the query refers to. -/
theorem neededWithin_eq {steps : Nat} (h : ∀ r ∈ q.references, (segments r.path).dropLast.length ≤ steps)
    (catalog : Catalog) : neededWithin steps q catalog = neededObjects q catalog := by
  have hlinked (main : SObject) : linkedWithin steps q main catalog =
      q.references.flatMap fun r => pathTargets catalog [main] (segments r.path).dropLast := by
    apply List.flatMap_congr
    intro r hr
    rw [List.take_of_length_le (h r hr)]
  cases hget : catalog.get? q.object with
  | none => simp only [neededWithin, neededObjects, hget]
  | some main => simp only [neededWithin, neededObjects, hget, hlinked]

theorem pathTargets_take_subset (catalog : Catalog) (current : List SObject) (parts : List String)
    (steps : Nat) :
    pathTargets catalog current (parts.take steps) ⊆ pathTargets catalog current parts := by
  induction parts generalizing current steps with
  | nil => simp
  | cons part rest ih =>
    cases steps with
    | zero => simp [pathTargets]
    | succ steps =>
      cases current with
      | nil => simp [pathTargets]
      | cons o others =>
        simp only [List.take_succ_cons, pathTargets]
        exact List.append_subset.mpr ⟨List.subset_append_left _ _,
          List.subset_append_of_subset_right _ (ih _ steps)⟩

theorem neededWithin_subset (steps : Nat) (catalog : Catalog) :
    neededWithin steps q catalog ⊆ neededObjects q catalog := by
  have hlinked (main : SObject) : linkedWithin steps q main catalog ⊆
      q.references.flatMap fun r => pathTargets catalog [main] (segments r.path).dropLast := by
    intro name hname
    obtain ⟨r, hr, hpath⟩ := List.mem_flatMap.mp hname
    exact List.mem_flatMap.mpr ⟨r, hr, pathTargets_take_subset catalog [main] _ steps hpath⟩
  intro name hname
  unfold neededWithin at hname
  unfold neededObjects
  rw [List.mem_eraseDups, List.mem_append] at hname ⊢
  refine hname.imp_right fun hrelated => ?_
  cases hmain : catalog.get? q.object with
  | none =>
    rw [hmain] at hrelated
    cases hrelated
  | some main =>
    rw [hmain] at hrelated
    exact (List.mem_append.mp hrelated).elim (List.mem_append_left _)
      fun h => List.mem_append_right _ (hlinked main h)

/-- The main object of a query is described, and so is what its paths pass through in their first
links. -/
def Reaches (graph : SchemaGraph) (tenant : Tenant) (q : Query) (steps : Nat) (catalog : Catalog) : Prop :=
  ∃ main, catalog.get? q.object = some main ∧
    catalog.Describes graph tenant (linkedWithin steps q main catalog)

/-- Each round reaches one link further. -/
theorem Reaches.next (hgraph : graph.Keyed) (hknown : KnowsAll graph tenant context) {steps : Nat}
    {catalog : Catalog} (h : Reaches graph tenant q steps catalog) :
    Reaches graph tenant q (steps + 1) (fetchedOnce graph tenant q context catalog) ∧
      (fetchedOnce graph tenant q context catalog).Describes graph tenant
        (neededWithin (steps + 1) q (fetchedOnce graph tenant q context catalog)) := by
  obtain ⟨main, hmain, hlinked⟩ := h
  have hgrows := grows_fetchedOnce hgraph tenant q context catalog
  -- One link further the paths lead to the same names before the round and after it.
  have hsame : linkedWithin (steps + 1) q main (fetchedOnce graph tenant q context catalog) =
      linkedWithin (steps + 1) q main catalog := by
    apply List.flatMap_congr
    intro r hr
    apply hgrows.pathTargets_take
    intro name hname
    exact hlinked name (List.mem_flatMap.mpr ⟨r, hr, hname⟩)
  have hneeded : neededWithin (steps + 1) q (fetchedOnce graph tenant q context catalog) =
      neededWithin (steps + 1) q catalog := by
    unfold neededWithin
    simp only [hgrows.get?_of_some hmain, hmain, hsame]
  -- These names were needed before the round, so that it has fetched them.
  have hdescribes := describes_fetchedOnce (q := q) hgraph hknown catalog
  have hwithin : (fetchedOnce graph tenant q context catalog).Describes graph tenant
      (neededWithin (steps + 1) q catalog) :=
    fun name hname => hdescribes name (neededWithin_subset _ _ hname)
  refine ⟨⟨main, hgrows.get?_of_some hmain, fun name hname => hwithin name ?_⟩, ?_⟩
  · rw [hsame] at hname
    simp only [neededWithin, hmain, List.mem_eraseDups, List.mem_append]
    exact .inr (.inr hname)
  · rw [hneeded]
    exact hwithin

theorem grows_iterate (hgraph : graph.Keyed) (tenant : Tenant) (q : Query) (context : Context) (rounds : Nat)
    (catalog : Catalog) :
    catalog.Grows graph tenant ((fetchedOnce graph tenant q context)^[rounds] catalog) := by
  induction rounds generalizing catalog with
  | zero => exact .refl
  | succ rounds ih =>
    rw [Function.iterate_succ_apply]
    exact (grows_fetchedOnce hgraph tenant q context catalog).trans (ih _)

theorem Reaches.iterate (hgraph : graph.Keyed) (hknown : KnowsAll graph tenant context) {steps : Nat}
    {catalog : Catalog} (h : Reaches graph tenant q steps catalog) (rounds : Nat) :
    Reaches graph tenant q (steps + rounds) ((fetchedOnce graph tenant q context)^[rounds] catalog) := by
  induction rounds with
  | zero => exact h
  | succ rounds ih =>
    rw [Function.iterate_succ_apply']
    exact (ih.next hgraph hknown).1

/-- How many links of a path are followed: one for each round, but a round is needed for the main object
if it is not described. -/
def linksFollowed (q : Query) (context : Context) : Nat :=
  if (context.get? q.object).isSome then fetchRounds else fetchRounds - 1

/-- After all rounds what the query refers to in the links that are followed is described. -/
theorem describes_iterate (hgraph : graph.Keyed) (hknown : KnowsAll graph tenant context) :
    ((fetchedOnce graph tenant q context)^[fetchRounds] context.catalog).Describes graph tenant
      (neededWithin (linksFollowed q context) q
        ((fetchedOnce graph tenant q context)^[fetchRounds] context.catalog)) := by
  -- With the main object described, no link is followed at first and each round adds one.
  have hfrom {catalog : Catalog} (hmain : (catalog.get? q.object).isSome = true) (rounds : Nat) :
      ((fetchedOnce graph tenant q context)^[rounds + 1] catalog).Describes graph tenant
        (neededWithin (rounds + 1) q ((fetchedOnce graph tenant q context)^[rounds + 1] catalog)) := by
    obtain ⟨main, hmain⟩ := Option.isSome_iff_exists.mp hmain
    have hstart : Reaches graph tenant q 0 catalog := by
      refine ⟨main, hmain, fun name hname => ?_⟩
      simp [linkedWithin, pathTargets] at hname
    have hlast := (hstart.iterate hgraph hknown rounds).next hgraph hknown
    rw [Nat.zero_add, ← Function.iterate_succ_apply' (fetchedOnce graph tenant q context)] at hlast
    exact hlast.2
  by_cases hmain : (context.get? q.object).isSome = true
  · rw [linksFollowed, if_pos hmain]
    exact hfrom hmain 2
  rw [linksFollowed, if_neg hmain]
  have habsent : context.catalog.get? q.object = none := Option.not_isSome_iff_eq_none.mp hmain
  by_cases hgiven : (graph.detail tenant q.object).isSome = true
  · -- The first round gets the main object.
    have hfirst : ((fetchedOnce graph tenant q context context.catalog).get? q.object).isSome = true := by
      refine describes_fetchedOnce hgraph hknown context.catalog q.object ?_ hgiven
      simp [neededObjects]
    exact hfrom hfirst 1
  · -- The main object stays away, and with it everything that it would lead to.
    have hnever (rounds : Nat) :
        ((fetchedOnce graph tenant q context)^[rounds] context.catalog).get? q.object = none :=
      (grows_iterate hgraph tenant q context rounds _).get?_of_none habsent (Option.not_isSome_iff_eq_none.mp hgiven)
    have hlast := describes_fetchedOnce (q := q) hgraph hknown
      ((fetchedOnce graph tenant q context)^[2] context.catalog)
    rw [← Function.iterate_succ_apply' (fetchedOnce graph tenant q context)] at hlast
    have hsame : neededObjects q ((fetchedOnce graph tenant q context)^[2] context.catalog) =
        neededWithin (fetchRounds - 1) q
          ((fetchedOnce graph tenant q context)^[fetchRounds] context.catalog) := by
      unfold neededObjects neededWithin
      rw [hnever 2, hnever fetchRounds]
    rw [hsame] at hlast
    exact hlast

/-- A round changes nothing just if everything is described that the query refers to. -/
theorem fetchedOnce_eq_self_iff (hgraph : graph.Keyed) (hknown : KnowsAll graph tenant context)
    {catalog : Catalog} : fetchedOnce graph tenant q context catalog = catalog ↔
      catalog.Describes graph tenant (neededObjects q catalog) := by
  constructor
  · intro hsame
    have hdescribes := describes_fetchedOnce (q := q) hgraph hknown catalog
    rw [hsame] at hdescribes
    exact hdescribes
  · intro hdescribes
    have hnone : (missingObjects q context catalog).filterMap (graph.detail tenant) = [] := by
      rw [List.filterMap_eq_nil_iff]
      intro name hname
      obtain ⟨hneeded, habsent, -⟩ := mem_missingObjects.mp hname
      by_contra hdetail
      have hheld := hdescribes name hneeded (Option.isSome_iff_ne_none.mpr hdetail)
      rw [habsent] at hheld
      cases hheld
    rw [fetchedOnce, hnone]
    rfl

theorem length_iterate_eq_iff (hgraph : graph.Keyed) (rounds : Nat) {catalog : Catalog} :
    ((fetchedOnce graph tenant q context)^[rounds + 1] catalog).length = catalog.length ↔
      fetchedOnce graph tenant q context catalog = catalog := by
  constructor
  · intro hlength
    -- Later rounds take nothing away again, so that the first one added nothing.
    obtain ⟨added, hadded, -⟩ := grows_fetchedOnce hgraph tenant q context catalog
    obtain ⟨more, hmore, -⟩ := grows_iterate hgraph tenant q context rounds
      (fetchedOnce graph tenant q context catalog)
    rw [Function.iterate_succ_apply, hmore, hadded, List.length_append, List.length_append] at hlength
    have hnone : added = [] := List.eq_nil_of_length_eq_zero (by omega)
    rw [hadded, hnone, List.append_nil]
  · intro hsame
    rw [Function.iterate_fixed hsame]

end Rounds

end Soql
