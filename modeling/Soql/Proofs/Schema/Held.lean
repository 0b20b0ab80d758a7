import Soql.Proofs.Dialogue
import Soql.Proofs.Schema.Catalog
import Soql.Rehearsal

namespace Soql

variable {α β γ σ : Type}

def Leaves (part : σ → γ) (r : StateM σ α) : Prop :=
  ∀ s, part (r.run s).2 = part s

theorem Leaves.bind {part : σ → γ} {r : StateM σ α} {f : α → StateM σ β} (h : Leaves part r)
    (hf : ∀ a, Leaves part (f a)) : Leaves part (r >>= f) :=
  fun s => (hf _ _).trans (h s)

theorem Leaves.mapM {part : σ → γ} {f : α → StateM σ β} (hf : ∀ a, Leaves part (f a)) (l : List α) :
    Leaves part (l.mapM f) := by
  induction l with
  | nil => exact fun _ => rfl
  | cons a l ih =>
    rw [List.mapM_cons]
    exact (hf a).bind fun _ => ih.bind fun _ _ => rfl

/-- A program that leaves the schemas as they are, and tells, if it tells anything, what is true of
them. -/
structure Tells (graph : σ → SchemaGraph) (truth : SchemaGraph → α) (r : StateM σ (Reply α)) : Prop where
  leaves : Leaves graph r
  told : ∀ s a, (r.run s).1 = .answered a → a = truth (graph s)

/-- The schemas that collaborators tell of are those of a graph, and no call changes it. -/
structure World.Holds (w : World σ) (graph : σ → SchemaGraph) : Prop where
  catalog : ∀ tenant, Tells graph (·.summaries tenant) (w.catalog tenant)
  detail : ∀ tenant name, Tells graph (·.detail tenant name) (w.detail tenant name)
  vectors : ∀ tenant names, Leaves graph (w.vectors tenant names)
  embed : ∀ text, Leaves graph (w.embed text)
  search : ∀ tenant text, Leaves graph (w.search tenant text)
  complete : ∀ role prompt, Leaves graph (w.complete role prompt)

/-- An answer about schemas is true of a graph. -/
def Question.Told (graph : SchemaGraph) : (q : Question) → q.Answer → Prop
  | .catalog tenant => fun (answer : Except Failure (List Summary)) =>
    ∀ found, answer = .ok found → found = graph.summaries tenant
  | .details tenant names => fun (answer : Except Failure (List (Option SObject))) =>
    ∀ found, answer = .ok found → found = names.map (graph.detail tenant)
  | .vectors _ _ _ | .searches _ _ _ _ | .completion _ _ => fun _ => True

/-- What is told of each of some names is true if all of it is told. -/
theorem mapM_tells {w : World σ} {graph : σ → SchemaGraph} (hw : w.Holds graph) (tenant : Tenant)
    (names : List String) (s : σ) {found : List (Option SObject)}
    (h : Reply.all ((names.mapM (w.detail tenant)).run s).1 = .answered found) :
    found = names.map ((graph s).detail tenant) := by
  induction names generalizing s found with
  | nil =>
    cases h
    rfl
  | cons name names ih =>
    have hrun : ((name :: names).mapM (w.detail tenant)).run s =
        (((w.detail tenant name).run s).1 ::
            ((names.mapM (w.detail tenant)).run ((w.detail tenant name).run s).2).1,
          ((names.mapM (w.detail tenant)).run ((w.detail tenant name).run s).2).2) := by
      rw [List.mapM_cons]
      rfl
    rw [hrun] at h
    unfold Reply.all at h
    split at h
    case h_3 o rest hfirst hrest =>
      obtain rfl := Reply.answered.inj h
      have hothers := ih _ hrest
      rw [(hw.detail tenant name).leaves s] at hothers
      rw [List.map_cons, (hw.detail tenant name).told s o hfirst, hothers]
    all_goals cases h

theorem ofReply_answered {r : Reply α} {seconds : Float} {answer : Except Failure α}
    (h : Response.ofReply r = .after seconds answer) {a : α} (ha : answer = .ok a) : r = .answered a := by
  cases r with
  | answered b =>
    cases h
    cases ha
    rfl
  | failed f =>
    cases h
    cases ha
  | silent => cases h

/-- Collaborators answer what is true of the schemas that they hold, and go on holding them. -/
theorem World.Holds.answer {w : World σ} {graph : σ → SchemaGraph} (hw : w.Holds graph) (q : Question) :
    Leaves graph (w.answer q) ∧
      ∀ s seconds a, ((w.answer q).run s).1 = .after seconds a → q.Told (graph s) a := by
  cases q with
  | catalog tenant =>
    refine ⟨(hw.catalog tenant).leaves.bind fun _ _ => rfl, fun s seconds a ha found hfound => ?_⟩
    exact (hw.catalog tenant).told s found (ofReply_answered ha hfound)
  | details tenant names =>
    refine ⟨(Leaves.mapM (fun name => (hw.detail tenant name).leaves) names).bind fun _ _ => rfl,
      fun s seconds a ha found hfound => ?_⟩
    exact mapM_tells hw tenant names s (ofReply_answered ha hfound)
  | vectors tenant names text =>
    refine ⟨?_, fun _ _ _ _ => trivial⟩
    exact (hw.vectors tenant names).bind fun _ => (hw.embed text).bind fun _ _ => rfl
  | searches tenant time texts awaited =>
    refine ⟨?_, fun _ _ _ _ => trivial⟩
    intro s
    rw [World.answer]
    split
    · rfl
    · exact (Leaves.mapM (hw.search tenant) texts).bind (fun _ _ => rfl) s
  | completion role prompt =>
    exact ⟨(hw.complete role prompt).bind fun _ _ => rfl, fun _ _ _ _ => trivial⟩

/-- A rehearsal tells of the graph in its script. -/
theorem Rehearsal.world_holds : Rehearsal.world.Holds (·.graph) := by
  have hplay {α : Type} {r : Rehearsal} {method : GraphMethod} {answer a : α}
      (h : r.play method answer = .answered a) : a = answer := by
    unfold Rehearsal.play at h
    split at h
    · exact (Reply.answered.inj h).symm
    · cases h
    · cases h
  refine ⟨fun tenant => ⟨fun _ => rfl, fun r found h => hplay h⟩,
    fun tenant name => ⟨fun _ => rfl, fun r found h => hplay h⟩, fun _ _ _ => rfl, fun _ _ => rfl,
    fun _ _ _ => rfl, fun _ _ _ => rfl⟩

/-- What the work comes to has a property if what is answered about schemas is true of a graph. -/
inductive Dialogue.Among (graph : SchemaGraph) (P : α → Prop) : Dialogue α → Prop
  | done {a : α} (h : P a) : Among graph P (.done a)
  | failed {f : Failure} : Among graph P (.failed f)
  | ask {q : Question} {next : q.Answer → Dialogue α}
    (h : ∀ answer, q.Told graph answer → Among graph P (next answer)) : Among graph P (.ask q next)

namespace Dialogue

variable {graph : SchemaGraph} {P : α → Prop} {Q : β → Prop}

theorem Among.bind {d : Dialogue α} {next : α → Dialogue β} (h : d.Among graph P)
    (hnext : ∀ a, P a → (next a).Among graph Q) : (d.bind next).Among graph Q := by
  induction h with
  | done h => exact hnext _ h
  | failed => exact .failed
  | ask _ ih => exact .ask ih

/-- What holds however questions are answered. -/
theorem Only.among {F : Failure → Prop} {d : Dialogue α} (h : d.Only P F) (graph : SchemaGraph) :
    d.Among graph P := by
  induction h with
  | done h => exact .done h
  | failed => exact .failed
  | ask _ ih => exact .ask fun answer _ => ih answer

theorem catalog_among (graph : SchemaGraph) (tenant : Tenant) :
    (catalog tenant).Among graph (· = graph.summaries tenant) := by
  apply Among.ask
  intro answer htold
  cases answer with
  | ok found => exact .done (htold found rfl)
  | error f => exact .failed

theorem details_among (graph : SchemaGraph) (tenant : Tenant) (names : List String) :
    (details tenant names).Among graph (· = names.filterMap (graph.detail tenant)) := by
  apply Among.ask
  intro answer htold
  cases answer with
  | ok found =>
    have hfound : found.filterMap id = names.filterMap (graph.detail tenant) := by
      rw [htold found rfl, List.filterMap_map]
      rfl
    exact .done hfound
  | error f => exact .failed

/-- Collaborators that hold a graph have the work come to what it comes to when answers are true of
the graph, and hold it still. -/
theorem Among.run {d : Dialogue α} {w : World σ} {held : σ → SchemaGraph} (hw : w.Holds held)
    (expires : Option Float) {x : Clocked σ} (h : d.Among (held x.state) P) :
    Ending.Only P (fun _ => True) ((d.run w expires).run x).1 := by
  generalize hgraph : held x.state = graph at h
  induction h generalizing x with
  | done h => exact h
  | failed => trivial
  | @ask q next _ ih =>
    obtain ⟨hleaves, htold⟩ := hw.answer q
    rcases run_ask_cases next w expires x with ⟨now, hrun⟩ | ⟨seconds, a, now, ha, hrun⟩
    · rw [hrun]
      trivial
    · rw [hrun]
      refine ih a ?_ ((hleaves x.state).trans hgraph)
      rw [← hgraph]
      exact htold x.state seconds a ha

/-- No work changes what collaborators hold. -/
theorem run_leaves {w : World σ} {held : σ → SchemaGraph} (hw : w.Holds held) (expires : Option Float)
    (d : Dialogue α) : Leaves (fun x : Clocked σ => held x.state) (d.run w expires) := by
  intro x
  induction d generalizing x with
  | done a => rfl
  | failed f => rfl
  | ask q next ih =>
    have hleaves := (hw.answer q).1 x.state
    rcases run_ask_cases next w expires x with ⟨now, hrun⟩ | ⟨seconds, a, now, -, hrun⟩
    · rw [hrun]
      exact hleaves
    · rw [hrun, ih a]
      exact hleaves

end Dialogue

end Soql
