import Mathlib.Data.List.Perm.Basic
import Soql.Proofs.Context.Own
import Soql.Proofs.Context.Pruning
import Soql.Proofs.Schema.Held

namespace Soql

/-- What is shown of an object: all but some of the fields, among them those always shown. -/
structure SObject.Shows (maxFields : Int) (full o : SObject) : Prop where
  same : o = { full with fields := o.fields }
  among : o.fields.Subperm full.fields
  always : o.fields.filter isAlwaysShown = full.fields.filter isAlwaysShown
  room : (o.fields.length : Int) ≤ max maxFields (full.fields.countP isAlwaysShown)

/-- The parts of a context agree. -/
structure Context.WellFormed (a : Assembler) (c : Context) : Prop where
  distinct : (c.objects.map (·.name)).Nodup
  seeds : c.scope <+: c.objects.map (·.name)
  shown : ∀ o ∈ c.objects, ∃ full, Table.find? o.name c.catalog = some full ∧
    SObject.Shows a.maxFields full o
  room : (c.objects.length : Int) ≤ c.scope.length + a.maxNeighbors
  around : ∀ o ∈ c.objects.drop c.scope.length, ∃ s ∈ c.objects.take c.scope.length,
    o.name ∈ s.neighbors
  objects : c.stats.objects = c.objects.length
  fields : c.stats.fields = (c.objects.flatMap (·.fields)).length
  relationships : c.stats.relationships =
    (c.objects.flatMap (·.parents)).length + (c.objects.flatMap (·.children)).length

section Lists

variable {α : Type}

theorem firstOf_sublist (n : Int) (items : List α) : (firstOf n items).Sublist items := by
  unfold firstOf
  split
  · exact List.take_sublist _ _
  · exact List.take_sublist _ _

theorem length_firstOf_le {n : Int} (hn : 0 ≤ n) (items : List α) : ((firstOf n items).length : Int) ≤ n := by
  rw [firstOf, if_neg (by omega), List.length_take]
  omega

theorem nodup_firstOfEachName (seen : List String) (objects : List SObject) :
    ((firstOfEachName seen objects).map (·.name)).Nodup ∧
      ∀ o ∈ firstOfEachName seen objects, o.name ∉ seen := by
  induction objects generalizing seen with
  | nil => exact ⟨List.nodup_nil, fun _ h => by cases h⟩
  | cons o objects ih =>
    rw [firstOfEachName]
    split
    case isTrue => exact ih seen
    case isFalse hnew =>
      obtain ⟨hnodup, hseen⟩ := ih (o.name :: seen)
      refine ⟨List.nodup_cons.mpr ⟨?_, hnodup⟩, List.forall_mem_cons.mpr ⟨by simpa using hnew, ?_⟩⟩
      · intro hmem
        obtain ⟨other, hother, hname⟩ := List.mem_map.mp hmem
        exact hseen other hother (by simp [hname])
      · exact fun other hother hmem => hseen other hother (List.mem_cons_of_mem _ hmem)

end Lists

namespace Assembler

open Dialogue

variable {a : Assembler} {request : String} {tenant : Tenant}

theorem shows_pruned (a : Assembler) (request : String) (full : SObject) :
    SObject.Shows a.maxFields full (a.pruned request full) where
  same := rfl
  among := importantFields_subperm full.fields request a.maxFields
  always := importantFields_always full.fields request a.maxFields
  room := length_importantFields_le full.fields request a.maxFields

structure Selected (a : Assembler) (scope : List String) (catalog : Catalog) (objects : List SObject) :
    Prop where
  distinct : (objects.map (·.name)).Nodup
  seeds : scope <+: objects.map (·.name)
  held : ∀ o ∈ objects, Table.find? o.name catalog = some o
  room : (objects.length : Int) ≤ scope.length + a.maxNeighbors
  around : ∀ o ∈ objects.drop scope.length, ∃ s ∈ objects.take scope.length, o.name ∈ s.neighbors

theorem Selected.wellFormed {c : Context} {full : List SObject} (h : Selected a c.scope c.catalog full)
    (hobjects : c.objects = full.map (a.pruned request)) (hstats : c.stats = .of c.objects) :
    c.WellFormed a := by
  have hnames : c.objects.map (·.name) = full.map (·.name) := by
    rw [hobjects, List.map_map]
    rfl
  refine ⟨?_, ?_, ?_, ?_, ?_, ?_, ?_, ?_⟩
  · rw [hnames]
    exact h.distinct
  · rw [hnames]
    exact h.seeds
  · intro o ho
    rw [hobjects] at ho
    obtain ⟨wide, hwide, rfl⟩ := List.mem_map.mp ho
    exact ⟨wide, h.held wide hwide, shows_pruned a request wide⟩
  · rw [hobjects, List.length_map]
    exact h.room
  · intro o ho
    rw [hobjects, ← List.map_drop] at ho
    obtain ⟨wide, hwide, rfl⟩ := List.mem_map.mp ho
    obtain ⟨s, hs, hnear⟩ := h.around wide hwide
    rw [hobjects, ← List.map_take]
    exact ⟨_, List.mem_map_of_mem hs, hnear⟩
  · rw [hstats]
    rfl
  · rw [hstats]
    rfl
  · rw [hstats]
    rfl

/-- The objects of a context in full are such objects again. -/
theorem selected_full {c : Context} (h : c.WellFormed a) : Selected a c.scope c.catalog
    (c.objects.map fun o => (c.catalog.get? o.name).getD o) := by
  -- Every object that is shown is described in full under the same name, with the same neighbors.
  have hfull : ∀ o ∈ c.objects, ∃ full, (c.catalog.get? o.name).getD o = full ∧
      Table.find? o.name c.catalog = some full ∧ full.name = o.name ∧ full.neighbors = o.neighbors := by
    intro o ho
    obtain ⟨full, hfound, hshows⟩ := h.shown o ho
    refine ⟨full, ?_, hfound, ?_, ?_⟩
    · rw [Catalog.get?, hfound]
      rfl
    · rw [hshows.same]
    · rw [hshows.same]
      rfl
  have hnames : (c.objects.map fun o => (c.catalog.get? o.name).getD o).map (·.name) =
      c.objects.map (·.name) := by
    rw [List.map_map]
    apply List.map_congr_left
    intro o ho
    obtain ⟨full, hget, -, hname, -⟩ := hfull o ho
    rw [Function.comp_apply, hget, hname]
  refine ⟨hnames ▸ h.distinct, hnames ▸ h.seeds, ?_, ?_, ?_⟩
  · intro o ho
    obtain ⟨shown, hshown, rfl⟩ := List.mem_map.mp ho
    obtain ⟨full, hget, hfound, hname, -⟩ := hfull shown hshown
    rw [hget, hname, hfound]
  · rw [List.length_map]
    exact h.room
  · intro o ho
    rw [← List.map_drop] at ho
    obtain ⟨shown, hshown, rfl⟩ := List.mem_map.mp ho
    obtain ⟨s, hs, hnear⟩ := h.around shown hshown
    obtain ⟨full, hget, -, hname, -⟩ := hfull shown (List.mem_of_mem_drop hshown)
    obtain ⟨fullSeed, hgetSeed, -, -, hneighbors⟩ := hfull s (List.mem_of_mem_take hs)
    rw [← List.map_take]
    refine ⟨_, List.mem_map_of_mem hs, ?_⟩
    rw [hget, hname, hgetSeed, hneighbors]
    exact hnear

/-- A name among the neighbours of a seed is one of a listed object that is no seed itself. -/
theorem mem_neighborsOf {labels : List (String × String)} {seeds terms : List String} {seed : SObject}
    {name : String} (h : name ∈ a.neighborsOf labels seeds terms seed) :
    name ∈ seed.neighbors ∧ name ∉ seeds ∧ (Table.find? name labels).isSome = true := by
  have hmem : name ∈ sortedTexts (seed.neighbors.filter fun n =>
      !seeds.contains n && (Table.find? n labels).isSome) := by
    unfold neighborsOf at h
    dsimp only at h
    split at h
    · exact (List.mergeSort_perm _ _).mem_iff.mp ((firstOf_sublist _ _).mem h)
    · exact h
  have hfiltered := List.mem_filter.mp ((List.mergeSort_perm _ _).mem_iff.mp hmem)
  rw [Bool.and_eq_true, Bool.not_eq_true', ← Bool.not_eq_true, List.contains_iff_mem] at hfiltered
  exact hfiltered

/-- Seeds with some of the objects around them. -/
theorem selected_around {seeds neighbors : List SObject} {chosen : List String}
    (hnodup : ((seeds ++ neighbors).map (·.name)).Nodup)
    (hnear : ∀ o ∈ neighbors, ∃ s ∈ seeds, o.name ∈ s.neighbors) (hchosen : chosen.Nodup)
    (hroom : (chosen.length : Int) ≤ a.maxNeighbors) :
    Selected a (seeds.map (·.name)) (Catalog.ofObjects (seeds ++ neighbors))
      (seeds ++ chosen.filterMap (Table.find? · (Catalog.ofObjects neighbors))) := by
  have hfound : ∀ o ∈ chosen.filterMap (Table.find? · (Catalog.ofObjects neighbors)),
      o ∈ neighbors := by
    intro o ho
    obtain ⟨name, -, hname⟩ := List.mem_filterMap.mp ho
    exact (Catalog.name_of_find? hname).1
  have hnames := Catalog.names_sublist neighbors chosen
  have hlength : (seeds.map (·.name)).length = seeds.length := List.length_map _
  refine ⟨?_, ?_, ?_, ?_, ?_⟩
  · rw [List.map_append, List.nodup_append] at hnodup ⊢
    obtain ⟨hseeds, -, hapart⟩ := hnodup
    refine ⟨hseeds, hnames.nodup hchosen, fun name hname other hother => ?_⟩
    obtain ⟨o, ho, rfl⟩ := List.mem_map.mp hother
    exact hapart name hname o.name (List.mem_map_of_mem (hfound o ho))
  · rw [List.map_append]
    exact List.prefix_append _ _
  · intro o ho
    apply Catalog.find?_ofObjects hnodup
    rcases List.mem_append.mp ho with ho | ho
    · exact List.mem_append_left _ ho
    · exact List.mem_append_right _ (hfound o ho)
  · have hshort := hnames.length_le
    rw [List.length_map] at hshort
    rw [List.length_append, hlength]
    omega
  · rw [hlength, List.drop_left, List.take_left]
    exact fun o ho => hnear o (hfound o ho)

theorem rankFor_distinct (objects : List SObject) (selected : List String) :
    (a.rankFor request tenant objects selected).Only (fun r => (r.candidates.map (·.name)).Nodup)
      fun _ => True := by
  have hunique := (nodup_firstOfEachName [] objects).1
  have hrank (semantic : Option (List (String × Float))) : ((rank a.weights
      (requestTerms request shortestTerm) selected semantic (firstOfEachName [] objects)).candidates.map
        (·.name)).Nodup := by
    rw [rank]
    have hperm := (List.mergeSort_perm ((firstOfEachName [] objects).map
      (scored a.weights (requestTerms request shortestTerm) selected semantic)) fun c d =>
        !d.goesBefore c).map (·.name)
    rw [hperm.nodup_iff, List.map_map]
    exact hunique
  unfold rankFor
  dsimp only
  split
  · exact .done List.nodup_nil
  · split
    · exact .done (hrank none)
    · exact .ask fun _ => .done (hrank _)

theorem ground_among (graph : SchemaGraph) (request : String) (tenant : Tenant) (g : Grounder)
    (objects : List SObject) (scope : List String) :
    (g.ground tenant objects scope (Request.terms request).values).Among graph fun _ => True :=
  ((ground_only request g tenant objects scope).weaken (fun _ _ => trivial) fun _ h => h).among graph

theorem namedObjects_listed {request : String} {summaries : List Summary} {name : String}
    (h : name ∈ namedObjects request summaries) : name ∈ summaries.map (·.name) := by
  have hfound := (List.mem_filter.mp (List.mem_eraseDups.mp h)).2
  rw [Bool.and_eq_true, List.contains_iff_mem] at hfound
  exact hfound.2

/-- A context that is built from a schema is well formed. -/
theorem build_wellFormed {graph : SchemaGraph} (hgraph : graph.Keyed) (hmax : 0 ≤ a.maxNeighbors)
    (request : String) (tenant : Tenant) : (a.build request tenant).Among graph (·.WellFormed a) := by
  apply (catalog_among graph tenant).bind
  rintro summaries rfl
  apply (details_among graph tenant _).bind
  intro seeds hseeds
  apply (details_among graph tenant _).bind
  intro neighbors hneighbors
  apply ((rankFor_distinct neighbors _).among graph).bind
  intro ranking hdistinct
  apply (ground_among graph request tenant a.grounder _ _).bind
  intro found _
  have hseedNames : seeds.map (·.name) = namedObjects request (graph.summaries tenant) := by
    rw [hseeds]
    exact hgraph.details fun _ hname => namedObjects_listed hname
  -- Neighbors are listed in the catalog and are none of the objects that they are neighbors of.
  have hnear : ∀ name ∈ (seeds.flatMap (a.neighborsOf
      (Table.putAll ((graph.summaries tenant).map fun s => (s.name, s.label)) [])
      (seeds.map (·.name)) (requestTerms request shortestTerm))).eraseDups,
      (∃ s ∈ seeds, name ∈ s.neighbors) ∧ name ∉ seeds.map (·.name) ∧
        name ∈ (graph.summaries tenant).map (·.name) := by
    intro name hname
    obtain ⟨s, hs, hmem⟩ := List.mem_flatMap.mp (List.mem_eraseDups.mp hname)
    obtain ⟨hneighbor, hother, hlisted⟩ := mem_neighborsOf hmem
    obtain ⟨label, hlabel⟩ := Option.isSome_iff_exists.mp hlisted
    obtain ⟨summary, hsummary, hentry⟩ := List.mem_map.mp (Table.mem_of_find?_putAll hlabel)
    cases hentry
    exact ⟨⟨s, hs, hneighbor⟩, hother, List.mem_map_of_mem hsummary⟩
  have hnames := hgraph.details fun name hname => (hnear name hname).2.2
  rw [← hneighbors] at hnames
  apply Among.done
  refine Selected.wellFormed (selected_around ?_ ?_ ?_ ?_) rfl rfl
  · have hseedsNodup : (seeds.map (·.name)).Nodup := by
      rw [hseedNames]
      exact nodup_eraseDups _
    rw [List.map_append, hnames, List.nodup_append]
    refine ⟨hseedsNodup, nodup_eraseDups _, fun name hname other hother hsame => ?_⟩
    rw [hsame] at hname
    exact (hnear other hother).2.1 hname
  · intro o ho
    have hname : o.name ∈ neighbors.map (·.name) := List.mem_map_of_mem ho
    rw [hnames] at hname
    exact (hnear o.name hname).1
  · exact (firstOf_sublist _ _).nodup ((List.filter_sublist.map _).nodup hdistinct)
  · exact length_firstOf_le hmax _

/-- A context that is adapted to another request stays well formed. -/
theorem adapt_wellFormed {c : Context} (h : c.WellFormed a) (graph : SchemaGraph) (request : String)
    (tenant : Tenant) : (a.adapt c request tenant).Among graph (·.WellFormed a) := by
  unfold adapt
  apply (ground_among graph request tenant a.grounder _ _).bind
  intro found _
  have hfull := selected_full h
  exact .done (Selected.wellFormed hfull rfl rfl)

/-- A context that is assembled is well formed if the one that is held is. -/
theorem assemble_wellFormed {graph : SchemaGraph} (hgraph : graph.Keyed) (hmax : 0 ≤ a.maxNeighbors)
    {held : Option Context} (h : ∀ c ∈ held, c.WellFormed a) (request : String) (tenant : Tenant) :
    (a.assemble held request tenant).Among graph fun r => r.context.WellFormed a := by
  unfold assemble
  split
  case h_1 context =>
    split
    case isTrue => exact .done (h context rfl)
    case isFalse =>
      exact (adapt_wellFormed (h context rfl) graph request tenant).bind fun _ hc => .done hc
  case h_2 => exact (build_wellFormed hgraph hmax request tenant).bind fun _ hc => .done hc

end Assembler

/-- A turn leaves each object that a graph holds under its own name. -/
def Turn.Keyed {σ : Type} (held : σ → SchemaGraph) : Turn σ → Prop
  | .assemble _ _ _ | .schemaChanged _ => True
  | .elsewhere change => ∀ x, (held x.state).Keyed → (held (change x).state).Keyed

namespace Assembler

open Dialogue

variable {σ : Type} {w : World σ} {held : σ → SchemaGraph} {a : Assembler} {policy : CachePolicy Float}
  {cache : ContextCache} {expires : Option Float} {request : String} {tenant : Tenant}

/-- All contexts that are kept are well formed, and the graph holds each object under its own name. -/
structure Sound (held : σ → SchemaGraph) (a : Assembler) (s : ContextCache × Clocked σ) : Prop where
  kept : s.1.Every fun _ c => c.WellFormed a
  keyed : (held s.2.state).Keyed

theorem keepMade_wellFormed (policy : CachePolicy Float) (request : String) (tenant : Tenant)
    {ending : Ending Assembled} (h : cache.Every fun _ c => c.WellFormed a)
    (hending : ending.Only (·.context.WellFormed a) fun _ => True) (y : Clocked σ) :
    Ending.Only (·.context.WellFormed a) (fun _ => True)
        (((keepMade policy request tenant ending).run cache).run y).1.1 ∧
      ((((keepMade policy request tenant ending).run cache).run y).1.2).Every (fun _ c => c.WellFormed a) ∧
      (((keepMade policy request tenant ending).run cache).run y).2.state = y.state := by
  cases ending with
  | done r =>
    cases r with
    | kept c => exact ⟨hending, h, rfl⟩
    | made c => exact ⟨hending, h.put _ request hending, rfl⟩
  | failed f => exact ⟨trivial, h, rfl⟩
  | expired => exact ⟨trivial, h, rfl⟩

/-- A call returns a well-formed context, if any, and leaves only such contexts. -/
theorem obtain_wellFormed (hw : w.Holds held) (hmax : 0 ≤ a.maxNeighbors) {s : ContextCache × Clocked σ}
    (h : Sound held a s) (policy : CachePolicy Float) (expires : Option Float) (request : String)
    (tenant : Tenant) :
    Ending.Only (·.context.WellFormed a) (fun _ => True)
        (((a.obtain w policy expires request tenant).run s.1).run s.2).1.1 ∧
      Sound held a ((((a.obtain w policy expires request tenant).run s.1).run s.2).1.2,
        (((a.obtain w policy expires request tenant).run s.1).run s.2).2) := by
  obtain ⟨cache, x⟩ := s
  have hheld : ∀ c ∈ (cache.get policy (Clocked.read.run x).1 request tenant).1, c.WellFormed a := by
    intro c hc
    obtain ⟨e, he, rfl⟩ := Cache.exists_entry_of_get hc
    exact h.kept tenant e he
  have hkept : (cache.get policy (Clocked.read.run x).1 request tenant).2.Every fun _ c => c.WellFormed a :=
    h.kept.get _ request tenant
  have hkeyed : (held (Clocked.read.run x).2.state).Keyed := h.keyed
  rw [obtain_run]
  dsimp only
  generalize cache.get policy (Clocked.read.run x).1 request tenant = looked at hheld hkept ⊢
  have hending := (assemble_wellFormed hkeyed hmax hheld request tenant).run hw expires
  have hgraph : held (((a.assemble looked.1 request tenant).run w expires).run
      (Clocked.read.run x).2).2.state = held (Clocked.read.run x).2.state :=
    run_leaves hw expires _ _
  generalize ((a.assemble looked.1 request tenant).run w expires).run (Clocked.read.run x).2 = carried
    at hending hgraph ⊢
  obtain ⟨hreturned, hall, hstate⟩ := keepMade_wellFormed policy request tenant hkept hending carried.2
  refine ⟨hreturned, hall, ?_⟩
  rw [← hgraph, ← hstate] at hkeyed
  exact hkeyed

theorem turn_wellFormed (hw : w.Holds held) (hmax : 0 ≤ a.maxNeighbors) {s : ContextCache × Clocked σ}
    (h : Sound held a s) {t : Turn σ} (ht : t.Keyed held) : Sound held a (turn w a policy s t) := by
  cases t with
  | assemble expires request tenant => exact (obtain_wellFormed hw hmax h policy expires request tenant).2
  | schemaChanged tenant => exact ⟨h.kept.invalidate tenant, h.keyed⟩
  | elsewhere change => exact ⟨h.kept, ht s.2 h.keyed⟩

theorem turns_wellFormed (hw : w.Holds held) (hmax : 0 ≤ a.maxNeighbors) {start : Clocked σ}
    (hstart : (held start.state).Keyed) {ts : List (Turn σ)} (hts : ∀ t ∈ ts, t.Keyed held) :
    Sound held a (turns w a policy start ts) := by
  induction ts using List.reverseRecOn with
  | nil => exact ⟨Cache.every_nil, hstart⟩
  | append_singleton ts t ih =>
    obtain ⟨hts, ht⟩ := List.forall_mem_append.mp hts
    have hbefore := ih hts
    unfold turns at hbefore ⊢
    rw [List.foldl_append]
    exact turn_wellFormed hw hmax hbefore (ht t (List.mem_singleton_self t))

/-- Whatever turns went before, a context that is returned is well formed, also when its objects were
chosen for another request. -/
theorem obtained_wellFormed (hw : w.Holds held) (hmax : 0 ≤ a.maxNeighbors) {start : Clocked σ}
    (hstart : (held start.state).Keyed) {ts : List (Turn σ)} (hts : ∀ t ∈ ts, t.Keyed held)
    (policy : CachePolicy Float) (expires : Option Float) (request : String) (tenant : Tenant)
    {assembled : Assembled} {kept : ContextCache} {y : Clocked σ}
    (h : ((a.obtain w policy expires request tenant).run (turns w a policy start ts).1).run
      (turns w a policy start ts).2 = ((.done assembled, kept), y)) :
    assembled.context.WellFormed a := by
  have hsound : Sound held a (turns w a policy start ts) := turns_wellFormed hw hmax hstart hts
  have hreturned := (obtain_wellFormed hw hmax hsound policy expires request tenant).1
  rw [h] at hreturned
  exact hreturned

def fewAround : Assembler :=
  { maxNeighbors := 1, maxFields := 2, minRelevance := 0.0 }

def accountsAndContacts : SchemaGraph :=
  SchemaGraph.load [] none { objects := .ofObjects [
    { name := "Account", fields := [{ name := "Rating" }, { name := "Name" }, { name := "OwnerId" }]
      parents := [⟨"ParentId", "Parent", "Account"⟩]
      children := [⟨"Contacts", "Contact", "AccountId"⟩] },
    { name := "Contact", fields := [{ name := "Rating" }]
      parents := [⟨"AccountId", "Account", "Account"⟩] }] }

def withOrders (x : Clocked Rehearsal) : Clocked Rehearsal :=
  { x with state := { x.state with graph := x.state.graph.loadObject none { name := "Order" } } }

def adaptedCall : (Ending Assembled × ContextCache) × Clocked Rehearsal :=
  let before := turns Rehearsal.world fewAround loosely { state := { graph := accountsAndContacts } }
    [.assemble none "low accounts" none, .elsewhere withOrders]
  ((fewAround.obtain Rehearsal.world loosely none "high accounts" none).run before.1).run before.2

theorem obtained_wellFormed_accounts : ∃ c kept y, adaptedCall = ((.done (.made c), kept), y) ∧
    (c.objects.map fun o => (o.name, o.fieldNames)) =
      [("Account", ["Name", "OwnerId"]), ("Contact", ["Rating"])] ∧ c.WellFormed fewAround := by
  have hshown : ((made? adaptedCall.1.1).map fun c => c.objects.map fun o => (o.name, o.fieldNames)) =
      some [("Account", ["Name", "OwnerId"]), ("Contact", ["Rating"])] := by
    decide +kernel
  obtain ⟨c, hmade, hobjects⟩ := Option.map_eq_some_iff.mp hshown
  have hcall : adaptedCall = ((.done (.made c), adaptedCall.1.2), adaptedCall.2) := by
    rw [← eq_of_made? hmade]
  have hkeyed : accountsAndContacts.Keyed := SchemaGraph.keyed_empty.load none _ {}
  have hturns : ∀ t ∈ [Turn.assemble none "low accounts" none, .elsewhere withOrders],
      t.Keyed Rehearsal.graph := by
    intro t ht
    rcases List.mem_pair.mp ht with rfl | rfl
    · trivial
    · exact fun x hx => hx.loadObject none { name := "Order" }
  exact ⟨c, _, _, hcall, hobjects, obtained_wellFormed Rehearsal.world_holds (by decide) hkeyed hturns
    loosely none "high accounts" none hcall⟩

end Assembler

end Soql
