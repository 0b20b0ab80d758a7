import Soql.Proofs.Compilation.Folders
import Soql.Proofs.Compilation.Moves
import Soql.Rehearsal

namespace Soql.Compiler

variable {σ : Type} {R : σ → σ → Prop} {w : World σ} {c : Compiler}

def opened (now : Moment) (request : String) (tenant : Tenant) (log : Option RunLog) :
    Except Failure Assembler.Assembled → Option RunLog
  | .ok a => log.map fun log =>
    log.start now request (a.context.format []) (.record [("tenant", .ofText? tenant)])
  | .error _ => log

/-- A log at the end of a compilation: a result is noted as far as it can be, a failure is not. -/
def settled (c : Compiler) (now : Moment) (request : String) (usage : Usage) (log : RunLog) :
    Except Failure Compiled → RunLog
  | .ok result => (noteResult c now request usage result log).2
  | .error _ => log

variable {request : String} {tenant : Tenant} {deadline : Option Float} {expires : Float} {now : Moment}

theorem steps_ahead (hw : w.Advances R) (now : Moment) (x : Compiling σ) :
    Session.Ahead R
      { x.session with
        log := opened now request tenant x.session.log ((assembling w c request tenant expires).run.run x).1 }
      ((steps w c now request tenant expires).run.run x).2.session := by
  have hassembling : Session.Ahead R x.session ((assembling w c request tenant expires).run.run x).2.session :=
    (assembling_keeps hw).run x
  rw [steps_eq]
  cases hrun : (assembling w c request tenant expires).run.run x with
  | mk result x' =>
    rw [hrun] at hassembling
    cases result with
    | error f =>
      rw [run_bind_error hrun]
      exact hassembling
    | ok a =>
      rw [run_bind_ok hrun]
      have hthen : Session.Ahead R ((startLog now request tenant a.context).run x'.session).2
          ((planThen w c now request tenant expires a.context).run.run x').2.session := planThen_ahead hw now x'
      exact ⟨hw.onward.trans hassembling.state hthen.state,
        hthen.log.trans (congrArg (Option.map _) hassembling.log), hthen.usage.trans hassembling.usage⟩

theorem conclude_session (stopped : Except Failure Compiled × Compiling σ) (s : Session σ) :
    ((conclude c now request stopped).run s).2 =
      { stopped.2.session with
        log := stopped.2.session.log.map fun log =>
          settled c now request (Usage.sum stopped.2.session.usage) log
            (ended stopped.2.compilation stopped.1) } := by
  rw [conclude_run]
  cases ended stopped.2.compilation stopped.1 with
  | error f => exact congrArg (fun log => { stopped.2.session with log }) Option.map_id'.symm
  | ok result =>
    cases hlog : stopped.2.session.log with
    | none => exact congrArg (fun log => { stopped.2.session with log }) hlog
    | some log => rfl

def assembled (w : World σ) (c : Compiler) (request : String) (tenant : Tenant) (deadline : Option Float)
    (s : Session σ) : Except Failure Assembler.Assembled :=
  ((assembling w c request tenant (deadlineOf c deadline s)).run.run
    { session := begun s, compilation := { request } }).1

def handed (w : World σ) (c : Compiler) (now : Moment) (request : String) (tenant : Tenant)
    (deadline : Option Float) (s : Session σ) : Usage :=
  Usage.sum ((steps w c now request tenant (deadlineOf c deadline s)).run.run
    { session := begun s, compilation := { request } }).2.session.usage

theorem steps_begun_ahead (hw : w.Advances R) (c : Compiler) (now : Moment) (request : String)
    (tenant : Tenant) (deadline : Option Float) (s : Session σ) :
    Session.Ahead R
      { begun s with log := opened now request tenant s.log (assembled w c request tenant deadline s) }
      ((steps w c now request tenant (deadlineOf c deadline s)).run.run
        { session := begun s, compilation := { request } }).2.session :=
  steps_ahead hw now { session := begun s, compilation := { request } }

/-- Nothing is noted where a compilation reads what it took. -/
theorem handed_eq (w : World σ) (c : Compiler) (now : Moment) (request : String) (tenant : Tenant)
    (deadline : Option Float) (s : Session σ) : handed w c now request tenant deadline s = {} :=
  congrArg Usage.sum (steps_begun_ahead w.advances_anyhow c now request tenant deadline s).usage

/-- A compilation takes its collaborators further. In the log it starts a run if it has a context, and
then notes its result. -/
theorem compile_ahead (hw : w.Advances R) (c : Compiler) (now : Moment) (request : String) (tenant : Tenant)
    (deadline : Option Float) (s : Session σ) :
    R s.clock.state ((compile w c now request tenant deadline).run s).2.clock.state ∧
    ((compile w c now request tenant deadline).run s).2.log =
      (opened now request tenant s.log (assembled w c request tenant deadline s)).map fun log =>
        settled c now request (handed w c now request tenant deadline s) log
          (reached w c now request tenant deadline s) := by
  have hsteps := steps_begun_ahead hw c now request tenant deadline s
  rw [compile_run, conclude_session]
  refine ⟨hsteps.state, ?_⟩
  dsimp only
  rw [hsteps.log]
  rfl

section

variable {usage : Usage} {log : RunLog} (outcome : Except Failure Compiled)

theorem settled_current : (settled c now request usage log outcome).current = log.current := by
  cases outcome with
  | ok r => exact noteResult_current c now request usage r
  | error f => rfl

theorem settled_next : (settled c now request usage log outcome).next = log.next := by
  cases outcome with
  | ok r => exact noteResult_next c now request usage r
  | error f => rfl

theorem settled_numbered (h : log.Numbered) : (settled c now request usage log outcome).Numbered := by
  cases outcome with
  | ok r => exact noteResult_numbered c now request usage r h
  | error f => exact h

end

structure Call where
  now : Moment
  request : String
  tenant : Tenant := none
  deadline : Option Float := none

def reaches (w : World σ) (c : Compiler) (x : Call) (s : Session σ) : Except Failure Compiled :=
  reached w c x.now x.request x.tenant x.deadline s

def call (w : World σ) (c : Compiler) (x : Call) (s : Session σ) : Except Failure Compiled × Session σ :=
  (compile w c x.now x.request x.tenant x.deadline).run s

theorem call_log (w : World σ) (c : Compiler) (x : Call) (s : Session σ) :
    (call w c x s).2.log =
      (opened x.now x.request x.tenant s.log (assembled w c x.request x.tenant x.deadline s)).map fun log =>
        settled c x.now x.request {} log (reaches w c x s) :=
  handed_eq w c x.now x.request x.tenant x.deadline s ▸
    (compile_ahead w.advances_anyhow c x.now x.request x.tenant x.deadline s).2

def calls (w : World σ) (c : Compiler) (xs : List Call) (s : Session σ) : Session σ :=
  xs.foldl (fun s x => (call w c x s).2) s

def resulting (x : Call) (outcome : Except Failure Compiled) : List (Call × Compiled) :=
  outcome.toOption.toList.map (x, ·)

def strays (w : World σ) (c : Compiler) : List Call → Session σ → List (Call × Compiled)
  | [], _ => []
  | x :: rest, s =>
    match assembled w c x.request x.tenant x.deadline s with
    | .ok _ => []
    | .error _ => resulting x (reaches w c x s) ++ strays w c rest (call w c x s).2

def overwritten (c : Compiler) (folder : RunFolder) (x : Call × Compiled) : RunFolder :=
  folder.putAll x.1.now (c.records x.1.now x.1.request {} x.2)

theorem overwritten_all_metadata (folder : RunFolder) (xs : List (Call × Compiled)) :
    Table.find? "metadata.json" (xs.foldl (overwritten c) folder).files =
      Table.find? "metadata.json" folder.files := by
  induction xs generalizing folder with
  | nil => rfl
  | cons x xs ih =>
    have hother : "metadata.json" ∉ (c.records x.1.now x.1.request {} x.2).map (·.1) := by
      rw [records]
      split <;> simp
    exact (ih _).trans (folder.find?_putAll_of_notMem x.1.now hother)

/-- Each folder of a log that another log still has is as it was, but for that of the current run, in
which the results of some calls were noted. -/
def Retains (c : Compiler) (log : RunLog) (xs : List (Call × Compiled)) (log' : RunLog) : Prop :=
  ∀ folder' ∈ log'.folders, folder'.id < log.next → ∃ folder ∈ log.folders, folder'.id = folder.id ∧
    folder' = if log.current = some folder.id then xs.foldl (overwritten c) folder else folder

section

variable {log log₁ log' : RunLog} {xs ys : List (Call × Compiled)}

theorem retains_refl (log : RunLog) : Retains c log [] log :=
  fun folder hfolder _ => ⟨folder, hfolder, rfl, (ite_self _).symm⟩

theorem retains_settled (x : Call) (outcome : Except Failure Compiled) :
    Retains c log (resulting x outcome) (settled c x.now x.request {} log outcome) := by
  cases outcome with
  | ok r =>
    intro folder' hfolder' _
    obtain ⟨folder, hfolder, rfl⟩ := mem_noteResult c x.now x.request {} r hfolder'
    refine ⟨folder, hfolder, ?_, rfl⟩
    split
    · exact folder.putAll_id x.now _
    · rfl
  | error f => exact retains_refl log

/-- As long as no run is started, all results come to the same folder. -/
theorem Retains.trans (h : Retains c log xs log₁) (hcurrent : log₁.current = log.current)
    (hnext : log₁.next = log.next) (h' : Retains c log₁ ys log') : Retains c log (xs ++ ys) log' := by
  intro folder' hfolder' hold
  obtain ⟨folder₁, hfolder₁, hid', hfolder'⟩ := h' folder' hfolder' (hnext ▸ hold)
  obtain ⟨folder, hfolder, hid, hfolder₁⟩ := h folder₁ hfolder₁ (hid' ▸ hold)
  refine ⟨folder, hfolder, hid'.trans hid, ?_⟩
  rw [hfolder', hcurrent, hid, hfolder₁, List.foldl_append]
  split
  · rfl
  · rfl

/-- Once a run is started, no result comes to the folder of an earlier one. -/
theorem Retains.started (h : ∀ folder ∈ log₁.folders, folder.id < log.next → folder ∈ log.folders)
    (hcurrent : log₁.current = some log.next) (hnext : log₁.next = log.next + 1) (h' : Retains c log₁ xs log') :
    Retains c log [] log' := by
  intro folder' hfolder' hold
  obtain ⟨folder, hfolder, hid, hfolder'⟩ := h' folder' hfolder' (by omega)
  rw [hid] at hold
  refine ⟨folder, h folder hfolder hold, hid, ?_⟩
  rw [hfolder', hcurrent, if_neg]
  · exact (ite_self _).symm
  · exact fun hown => absurd (Option.some.inj hown) (Nat.ne_of_gt hold)

/-- What a run was started with stays noted. -/
theorem Retains.metadata (h : Retains c log xs log') {folder' : RunFolder} (hfolder' : folder' ∈ log'.folders)
    (hold : folder'.id < log.next) : ∃ folder ∈ log.folders, folder'.id = folder.id ∧
      Table.find? "metadata.json" folder'.files = Table.find? "metadata.json" folder.files := by
  obtain ⟨folder, hfolder, hid, hfolder'⟩ := h folder' hfolder' hold
  refine ⟨folder, hfolder, hid, ?_⟩
  rw [hfolder']
  split
  · exact overwritten_all_metadata folder xs
  · rfl

end

section

variable {x : Call} {s : Session σ} {log : RunLog}

/-- A call that has a context starts a run of its own, and leaves the folders of all others alone. -/
theorem call_with_context {a : Assembler.Assembled} (hlog : s.log = some log) (h : log.Numbered)
    (hassembled : assembled w c x.request x.tenant x.deadline s = .ok a) :
    ∃ log', (call w c x s).2.log = some log' ∧ log'.Numbered ∧
      log'.current = some log.next ∧ log'.next = log.next + 1 ∧
      ∀ folder ∈ log'.folders, folder.id < log.next → folder ∈ log.folders := by
  have hcall := call_log w c x s
  rw [hassembled, hlog] at hcall
  refine ⟨_, hcall, settled_numbered _ (h.start ..), settled_current _, settled_next _, ?_⟩
  intro folder' hfolder' hold
  obtain ⟨folder, hfolder, hid, hfolder'⟩ :=
    retains_settled x (reaches w c x s) folder' hfolder' (Nat.lt_succ_of_lt hold)
  rw [hid] at hold
  rw [hfolder', if_neg]
  · exact RunLog.mem_start hfolder hold
  · exact fun hcurrent => absurd (Option.some.inj hcurrent) (Nat.ne_of_gt hold)

/-- What a call comes to that has no context is noted in the folder of the run before. -/
theorem call_without_context {f : Failure} (hlog : s.log = some log) (h : log.Numbered)
    (hassembled : assembled w c x.request x.tenant x.deadline s = .error f) :
    ∃ log', (call w c x s).2.log = some log' ∧ log'.Numbered ∧
      log'.current = log.current ∧ log'.next = log.next ∧
      Retains c log (resulting x (reaches w c x s)) log' := by
  have hcall := call_log w c x s
  rw [hassembled, hlog] at hcall
  exact ⟨_, hcall, settled_numbered _ h, settled_current _, settled_next _, retains_settled x _⟩

end

/-- By induction on the calls, from any session with a log whose folders are numbered. -/
theorem calls_retain (xs : List Call) {s : Session σ} {log : RunLog} (hlog : s.log = some log)
    (h : log.Numbered) :
    ∃ log', (calls w c xs s).log = some log' ∧ log'.Numbered ∧ Retains c log (strays w c xs s) log' := by
  induction xs generalizing s log with
  | nil => exact ⟨log, hlog, h, retains_refl log⟩
  | cons x xs ih =>
    cases hassembled : assembled w c x.request x.tenant x.deadline s with
    | ok a =>
      obtain ⟨log₁, hlog₁, hnumbered, hcurrent, hnext, hkept⟩ := call_with_context hlog h hassembled
      obtain ⟨log', hlog', hnumbered', hretains⟩ := ih hlog₁ hnumbered
      rw [strays, hassembled]
      exact ⟨log', hlog', hnumbered', .started hkept hcurrent hnext hretains⟩
    | error f =>
      obtain ⟨log₁, hlog₁, hnumbered, hcurrent, hnext, hkept⟩ := call_without_context hlog h hassembled
      obtain ⟨log', hlog', hnumbered', hretains⟩ := ih hlog₁ hnumbered
      rw [strays, hassembled]
      exact ⟨log', hlog', hnumbered', hkept.trans hcurrent hnext hretains⟩

/-- However many calls follow, of the folders that were there each one that is still there is as it was,
except that of the run before them: the results of the calls before the first one with a context are
noted in it. What a run was started with stays noted in all of them. -/
theorem calls_folders (xs : List Call) {s : Session σ} {log : RunLog} (hlog : s.log = some log)
    (h : log.Numbered) :
    ∃ log', (calls w c xs s).log = some log' ∧ log'.Numbered ∧ Retains c log (strays w c xs s) log' ∧
      ∀ folder' ∈ log'.folders, folder'.id < log.next → ∃ folder ∈ log.folders, folder'.id = folder.id ∧
        Table.find? "metadata.json" folder'.files = Table.find? "metadata.json" folder.files := by
  obtain ⟨log', hlog', hnumbered, hretains⟩ := calls_retain xs hlog h
  exact ⟨log', hlog', hnumbered, hretains, fun _ => hretains.metadata⟩

def hurried : Call where
  now := ⟨200, "later"⟩
  request := "cases"
  deadline := some 0.0

theorem calls_folders_hurried :
    let log : RunLog := ({} : RunLog).start ⟨100, "first"⟩ "accounts" "" .null
    let s : Session Rehearsal := { clock := { state := {} }, log := some log }
    ∃ log', (calls Rehearsal.world {} [hurried] s).log = some log' ∧ log'.Numbered ∧
      Retains {} log (strays Rehearsal.world {} [hurried] s) log' ∧
      ∀ folder' ∈ log'.folders, folder'.id < log.next → ∃ folder ∈ log.folders, folder'.id = folder.id ∧
        Table.find? "metadata.json" folder'.files = Table.find? "metadata.json" folder.files :=
  calls_folders [hurried] rfl (RunLog.numbered_empty.start _ _ _ _)

def filed (s : Session σ) (name : String) : List (Nat × Option String) :=
  (s.log.map (·.folders)).getD [] |>.map fun folder => (folder.id, Table.find? name folder.files)

/-- A compilation with a context and then one without time, which has no folder of its own and changes
all but one of the files of the first. -/
theorem calls_overwrite :
    let s : Session Rehearsal := { clock := { state := {} }, log := some {} }
    let first := calls Rehearsal.world {} [⟨⟨100, "first"⟩, "accounts", none, none⟩] s
    let second := (call Rehearsal.world {} hurried first).2
    (filed first "metadata.json").map (·.1) = [0] ∧ (filed second "metadata.json").map (·.1) = [0] ∧
      filed first "summary.json" = [(0, some
        "\x7b\n  \"status\": \"failed\",\n  \"finished_at\": \"first\",\n  \"soql\": null,\n  \"corrections\": []\n\x7d")] ∧
      filed second "summary.json" = [(0, some
        "\x7b\n  \"status\": \"failed\",\n  \"finished_at\": \"later\",\n  \"soql\": null,\n  \"corrections\": []\n\x7d")] ∧
      filed second "timeline.json" ≠ filed first "timeline.json" ∧
      filed second "timeline.txt" ≠ filed first "timeline.txt" ∧
      filed second "usage.json" ≠ filed first "usage.json" := by
  decide +kernel

end Soql.Compiler
