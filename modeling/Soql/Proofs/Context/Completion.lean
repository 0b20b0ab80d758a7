import Soql.Proofs.Context.Rounds
import Soql.Proofs.Query.Reading
import Soql.Proofs.Schema.Held
import Soql.Schema.Sample

namespace Soql

open Text

/-- Collaborators that always describe the objects of a graph, and go on doing so. -/
structure World.Describes {σ : Type} (w : World σ) (graph : SchemaGraph) (calm : σ → Prop) : Prop where
  told : ∀ tenant name s, calm s → ((w.detail tenant name).run s).1 = .answered (graph.detail tenant name)
  calm : ∀ tenant name s, calm s → calm ((w.detail tenant name).run s).2

/-- A rehearsal does whose script leaves the details undisturbed. -/
theorem Rehearsal.world_describes (graph : SchemaGraph) :
    Rehearsal.world.Describes graph fun r => r.graph = graph ∧ r.disturbed .detail = .answered () := by
  refine ⟨fun tenant name r hr => ?_, fun tenant name r hr => hr⟩
  change r.play .detail (r.graph.detail tenant name) = _
  rw [Rehearsal.play, hr.1, hr.2]

theorem Dialogue.bind_assoc {α β γ : Type} (d : Dialogue α) (f : α → Dialogue β) (g : β → Dialogue γ) :
    (d.bind f).bind g = d.bind fun a => (f a).bind g := by
  induction d with
  | done a => rfl
  | failed failure => rfl
  | ask question next ih => exact congrArg (ask question) (funext ih)

section Completion

variable {σ : Type} {w : World σ} {graph : SchemaGraph} {calm : σ → Prop}

theorem World.Describes.mapM (hw : w.Describes graph calm) (tenant : Tenant) (names : List String) {s : σ}
    (hs : calm s) :
    Reply.all ((names.mapM (w.detail tenant)).run s).1 = .answered (names.map (graph.detail tenant)) ∧
      calm ((names.mapM (w.detail tenant)).run s).2 := by
  induction names generalizing s with
  | nil => exact ⟨rfl, hs⟩
  | cons name names ih =>
    obtain ⟨hall, hcalm⟩ := ih (hw.calm tenant name s hs)
    rw [List.mapM_cons, run_bind, run_bind, run_pure]
    refine ⟨?_, hcalm⟩
    change Reply.all (((w.detail tenant name).run s).1 :: _) = _
    rw [hw.told tenant name s hs]
    simp only [Reply.all, hall, List.map_cons]

/-- Without a limit of time a question that is answered comes to what its answer leads to. -/
theorem Dialogue.run_ask_answered {α : Type} {question : Question} (next : question.Answer → Dialogue α)
    {x : Clocked σ} {seconds : Float} {a : question.Answer}
    (h : ((w.answer question).run x.state).1 = .after seconds a) :
    ∃ now, ((ask question next).run w none).run x =
      ((next a).run w none).run ⟨now, ((w.answer question).run x.state).2⟩ := by
  have hresponse : ((Clocked.within (w.answer question)).run x).1 = .after seconds a := h
  refine ⟨x.now + seconds, ?_⟩
  rw [Dialogue.run, run_bind, hresponse]
  simp only [Option.any_none, Bool.and_false]
  rfl

/-- Work that begins with asking for details goes on with those of the graph. -/
theorem World.Describes.run_details {α : Type} (hw : w.Describes graph calm) (tenant : Tenant)
    (names : List String) (next : List SObject → Dialogue α) {x : Clocked σ} (hx : calm x.state) :
    ∃ y : Clocked σ, calm y.state ∧ (((Dialogue.details tenant names).bind next).run w none).run x =
      ((next (names.filterMap (graph.detail tenant))).run w none).run y := by
  obtain ⟨hall, hcalm⟩ := hw.mapM tenant names hx
  have hanswer : ((w.answer (.details tenant names)).run x.state).1 =
      .after 0.0 (.ok (names.map (graph.detail tenant))) :=
    congrArg Response.ofReply hall
  have hfound : (names.map (graph.detail tenant)).filterMap id = names.filterMap (graph.detail tenant) := by
    rw [List.filterMap_map]
    rfl
  unfold Dialogue.details Dialogue.askOr Dialogue.bind
  obtain ⟨now, hrun⟩ := Dialogue.run_ask_answered (fun answer => _) hanswer
  refine ⟨⟨now, ((names.mapM (w.detail tenant)).run x.state).2⟩, hcalm, hrun.trans ?_⟩
  rw [← hfound]
  rfl

variable (tenant : Tenant) (q : Query) (context : Context)

/-- Completing a catalog is fetching for so many rounds. -/
theorem run_completed {α : Type} (hw : w.Describes graph calm) (next : Catalog → Dialogue α)
    (rounds : Nat) (catalog : Catalog) {x : Clocked σ} (hx : calm x.state) :
    ∃ y : Clocked σ, calm y.state ∧ (((completed q context tenant rounds catalog).bind next).run w none).run x =
      ((next ((fetchedOnce graph tenant q context)^[rounds] catalog)).run w none).run y := by
  induction rounds generalizing catalog x with
  | zero => exact ⟨x, hx, rfl⟩
  | succ rounds ih =>
    -- When nothing comes back no further round is made, and none would change anything.
    have hidle (h : (missingObjects q context catalog).filterMap (graph.detail tenant) = []) :
        (fetchedOnce graph tenant q context)^[rounds + 1] catalog = catalog := by
      apply Function.iterate_fixed
      rw [fetchedOnce, h]
      rfl
    unfold completed
    split
    case h_1 hnone =>
      rw [hidle (by rw [hnone]; rfl)]
      exact ⟨x, hx, rfl⟩
    case h_2 =>
      change ∃ y : Clocked σ, _ ∧ ((Dialogue.bind (Dialogue.bind _ _) next).run w none).run x = _
      rw [Dialogue.bind_assoc]
      obtain ⟨y, hy, hrun⟩ := hw.run_details tenant (missingObjects q context catalog) _ hx
      rw [hrun]
      by_cases hempty : (missingObjects q context catalog).filterMap (graph.detail tenant) = []
      · rw [hidle hempty, hempty]
        exact ⟨y, hy, rfl⟩
      · obtain ⟨z, hz, hrest⟩ := ih (fetchedOnce graph tenant q context catalog) hy
        refine ⟨z, hz, ?_⟩
        rw [Function.iterate_succ_apply, ← hrest, if_neg (by simpa using hempty)]
        rfl

/-- Completing a context gives one with the catalog after all rounds, or nothing when no object was
added. -/
theorem run_completeFor (hw : w.Describes graph calm) {x : Clocked σ} (hx : calm x.state) :
    ∃ y : Clocked σ, calm y.state ∧ ((completeFor q context tenant).run w none).run x =
      (.done (if ((fetchedOnce graph tenant q context)^[fetchRounds] context.catalog).length =
            context.catalog.length then none
          else some { context with
            catalog := (fetchedOnce graph tenant q context)^[fetchRounds] context.catalog }), y) := by
  obtain ⟨y, hy, hrun⟩ := run_completed tenant q context hw
    (fun catalog => .done (if catalog.length == context.catalog.length then none
      else some { context with catalog })) fetchRounds context.catalog hx
  refine ⟨y, hy, hrun.trans ?_⟩
  simp only [beq_iff_eq]
  rfl

variable {tenant} {context}

/-- Nothing is added just if everything is described that the query refers to. -/
theorem completeFor_none_iff (hw : w.Describes graph calm) (hgraph : graph.Keyed)
    (hknown : KnowsAll graph tenant context) {x : Clocked σ} (hx : calm x.state) :
    (((completeFor q context tenant).run w none).run x).1 = .done none ↔
      context.catalog.Describes graph tenant (neededObjects q context.catalog) := by
  obtain ⟨y, -, hrun⟩ := run_completeFor tenant q context hw hx
  rw [hrun, ← fetchedOnce_eq_self_iff hgraph hknown, ← length_iterate_eq_iff hgraph 2]
  simp only [Ending.done.injEq, ite_eq_left_iff, reduceCtorEq, imp_false, not_not]
  rfl

/-- Completing a context for a query ends, adds objects behind those that the catalog has, and changes
nothing else. Every object that the query refers to in the links that are followed, and that the graph has,
is described then. Completing it once more gives nothing just if every object is described that the query
refers to at all, and so it is where no path of the query has more links. -/
theorem completeFor_within (hw : w.Describes graph calm) (hgraph : graph.Keyed)
    (hknown : KnowsAll graph tenant context) {x : Clocked σ} (hx : calm x.state) :
    ∃ found y, calm y.state ∧ ((completeFor q context tenant).run w none).run x = (.done found, y) ∧
      ∃ added, found.getD context = { context with catalog := context.catalog ++ added } ∧
        Catalog.Describes (context.catalog ++ added) graph tenant
          (neededWithin (linksFollowed q context) q (context.catalog ++ added)) ∧
        (Catalog.Describes (context.catalog ++ added) graph tenant
            (neededObjects q (context.catalog ++ added)) ↔
          ∀ z : Clocked σ, calm z.state →
            (((completeFor q (found.getD context) tenant).run w none).run z).1 = .done none) ∧
        ((∀ r ∈ q.references, (segments r.path).dropLast.length ≤ linksFollowed q context) →
          Catalog.Describes (context.catalog ++ added) graph tenant
            (neededObjects q (context.catalog ++ added))) := by
  obtain ⟨y, hy, hrun⟩ := run_completeFor tenant q context hw hx
  have hwithin := describes_iterate (q := q) hgraph hknown
  obtain ⟨added, hadded, -⟩ := grows_iterate hgraph tenant q context fetchRounds context.catalog
  rw [hadded] at hrun hwithin
  have hfound : (if (context.catalog ++ added).length = context.catalog.length then none
      else some { context with catalog := context.catalog ++ added }).getD context =
        { context with catalog := context.catalog ++ added } := by
    split
    case isTrue hlength =>
      -- Nothing is given where nothing was added: the context stands for itself then.
      rw [List.length_append] at hlength
      have hnone : added = [] := List.eq_nil_of_length_eq_zero (by omega)
      rw [hnone, List.append_nil]
      rfl
    case isFalse => rfl
  refine ⟨_, y, hy, hrun, added, hfound, hwithin, ?_, fun hlinks => ?_⟩
  · -- The further catalog belongs to a context that knows as much.
    have hknows : KnowsAll graph tenant { context with catalog := context.catalog ++ added } := hknown
    have hagain {z : Clocked σ} (hz : calm z.state) := completeFor_none_iff q hw hgraph hknows hz
    rw [hfound]
    exact ⟨fun hall z hz => (hagain hz).mpr hall, fun hnone => (hagain hy).mp (hnone y hy)⟩
  · rw [neededWithin_eq hlinks] at hwithin
    exact hwithin

end Completion

def sampled : SchemaGraph :=
  SchemaGraph.load [] none Sample.schema

theorem sampled_keyed : sampled.Keyed :=
  SchemaGraph.keyed_empty.load none Sample.objects Sample.schema

def leadsOnly : Context :=
  .ofObjects [Sample.lead] (some (Sample.objects.map (·.name))) [] none

theorem leadsOnly_knowsAll : KnowsAll sampled none leadsOnly := by
  have hlisted : (sampled.summaries none).map (·.name) = leadsOnly.known := by decide +kernel
  intro name hname
  rw [← hlisted]
  exact hname

theorem completeFor_within_contacts : ∃ q, Query.parse "SELECT Account.Owner.Name FROM Contact" = .ok q ∧
    linksFollowed q leadsOnly = 2 ∧
    ∃ found y, ((completeFor q leadsOnly none).run Rehearsal.world none).run
        { state := { graph := sampled } } = (.done found, y) ∧
      ∃ added, found.getD leadsOnly = { leadsOnly with catalog := leadsOnly.catalog ++ added } ∧
        Catalog.Describes (leadsOnly.catalog ++ added) sampled none
          (neededObjects q (leadsOnly.catalog ++ added)) := by
  obtain ⟨q, hq, hfine⟩ := Query.exists_ok_of_any (r := Query.parse "SELECT Account.Owner.Name FROM Contact")
    (p := fun q => linksFollowed q leadsOnly == 2 &&
      q.references.all fun r => decide ((segments r.path).dropLast.length ≤ 2)) (by decide +kernel)
  rw [Bool.and_eq_true, beq_iff_eq, List.all_eq_true] at hfine
  obtain ⟨hfollowed, hlinks⟩ := hfine
  obtain ⟨found, y, -, hrun, added, hfound, -, -, hall⟩ :=
    completeFor_within q (Rehearsal.world_describes sampled) sampled_keyed leadsOnly_knowsAll
      (x := { state := { graph := sampled } }) ⟨rfl, rfl⟩
  refine ⟨q, hq, hfollowed, found, y, hrun, added, hfound, hall fun r hr => ?_⟩
  rw [hfollowed]
  exact of_decide_eq_true (hlinks r hr)

/-- A path with three links from an object that is not described yet: the object behind the third link is
still missing after all rounds. -/
theorem completeFor_unfinished : ∃ q, Query.parse "SELECT Contact.Account.Owner.Name FROM Case" = .ok q ∧
    ∃ context y, ((completeFor q leadsOnly none).run Rehearsal.world none).run
        { state := { graph := sampled } } = (.done (some context), y) ∧
      "User" ∈ neededObjects q context.catalog ∧ (sampled.detail none "User").isSome = true ∧
      context.catalog.get? "User" = none := by
  obtain ⟨q, hq, hfine⟩ := Query.exists_ok_of_any
    (r := Query.parse "SELECT Contact.Account.Owner.Name FROM Case")
    (p := fun q =>
      let catalog := (fetchedOnce sampled none q leadsOnly)^[fetchRounds] leadsOnly.catalog
      decide (catalog.length ≠ leadsOnly.catalog.length) &&
        ((neededObjects q catalog).contains "User" && (catalog.get? "User").isNone)) (by decide +kernel)
  simp only [Bool.and_eq_true, decide_eq_true_eq, List.contains_iff_mem, Option.isNone_iff_eq_none] at hfine
  obtain ⟨hmore, hneeded, hmissing⟩ := hfine
  obtain ⟨y, -, hrun⟩ := run_completeFor none q leadsOnly (Rehearsal.world_describes sampled)
    (x := { state := { graph := sampled } }) ⟨rfl, rfl⟩
  rw [if_neg hmore] at hrun
  exact ⟨q, hq, _, y, hrun, hneeded, by decide +kernel, hmissing⟩

end Soql
