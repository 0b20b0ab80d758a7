import Mathlib.Data.List.Nodup
import Soql.Compilation.Compile

namespace Soql

namespace Report

open Text

theorem mapM_itemText (texts : List String) : (texts.map Json.text).mapM itemText = .ok texts := by
  induction texts with
  | nil => rfl
  | cons s texts ih =>
    rw [List.map_cons, List.mapM_cons, ih]
    rfl

theorem listed_texts (texts : List String) : listed (texts.map Json.text) = .ok (joined ", " texts) := by
  unfold listed
  rw [mapM_itemText]
  rfl

/-- A step that goes well, and what goes well after it. -/
theorem exists_bind_ok {α β : Type} {m : Except Failure α} {a : α} {next : α → Except Failure β}
    (hm : m = .ok a) (hnext : ∃ b, next a = .ok b) : ∃ b, (m >>= next) = .ok b := by
  rw [hm]
  exact hnext

/-- The lines on what a compilation has noted can be written. -/
theorem entryLines_ok (entry : TimelineEntry) : ∃ lines, entryLines entry.toJson = .ok lines := by
  -- The report looks for lists of texts under just the names under which an entry has them.
  cases entry with
  | context objects grounding degraded =>
    change ∃ lines, contextLines (TimelineEntry.context objects grounding degraded).toJson = .ok lines
    unfold contextLines
    apply exists_bind_ok (a := objects.map Json.text) rfl
    apply exists_bind_ok (listed_texts objects)
    dsimp only
    split
    · apply exists_bind_ok (a := grounding.map Json.text) rfl
      rw [← List.map_take]
      exact exists_bind_ok (listed_texts (grounding.take 5)) ⟨_, rfl⟩
    · exact ⟨_, rfl⟩
  | plan plan =>
    cases plan with
    | ok p =>
      change ∃ lines, planLines (TimelineEntry.plan (.ok p)).toJson = .ok lines
      unfold planLines
      apply exists_bind_ok (a := p.tables.map Json.text) rfl
      exact exists_bind_ok (listed_texts p.tables) ⟨_, rfl⟩
    | error e => exact ⟨_, rfl⟩
  | draft attempt query errors =>
    change ∃ lines, draftLines (TimelineEntry.draft attempt query errors).toJson = .ok lines
    unfold draftLines
    apply exists_bind_ok (a := errors.map Json.text) rfl
    rw [← List.map_take]
    exact exists_bind_ok (mapM_itemText (errors.take 2)) ⟨_, rfl⟩
  | repair attempt event =>
    cases event with
    | pass number before after actions query rolledBack =>
      change ∃ lines, repairLines (TimelineEntry.repair attempt
        (.pass number before after actions query rolledBack)).toJson = .ok lines
      unfold repairLines
      apply exists_bind_ok (a := actions.map Json.text) rfl
      rw [← List.map_take]
      exact exists_bind_ok (mapM_itemText (actions.take 3)) ⟨_, rfl⟩
    | limit query => exact ⟨_, rfl⟩
  | regenerate attempt reason => exact ⟨_, rfl⟩
  | exhausted => exact ⟨_, rfl⟩
  | final status query => exact ⟨_, rfl⟩

theorem lines_ok (request : String) (timeline : List TimelineEntry) (maxRegenerations : Int) :
    ∃ report, lines request (timeline.map (·.toJson)) maxRegenerations = .ok report := by
  have hentries : ∃ entries, (timeline.map (·.toJson)).mapM entryLines = .ok entries := by
    induction timeline with
    | nil => exact ⟨[], rfl⟩
    | cons entry timeline ih =>
      obtain ⟨lines, hlines⟩ := entryLines_ok entry
      obtain ⟨entries, hentries⟩ := ih
      rw [List.map_cons, List.mapM_cons]
      exact exists_bind_ok hlines (exists_bind_ok hentries ⟨_, rfl⟩)
  obtain ⟨entries, hentries⟩ := hentries
  exact exists_bind_ok hentries ⟨_, rfl⟩

end Report

namespace RunFolder

def putAll (folder : RunFolder) (now : Moment) (files : List (String × String)) : RunFolder :=
  files.foldl (fun folder (name, text) => folder.put now name text) folder

variable (folder : RunFolder) (now : Moment)

@[simp] theorem put_id (name text : String) : (folder.put now name text).id = folder.id :=
  rfl

@[simp] theorem putAll_id (files : List (String × String)) : (folder.putAll now files).id = folder.id := by
  induction files generalizing folder with
  | nil => rfl
  | cons file files ih => exact ih (folder.put now file.1 file.2)

/-- A file with another name stays as it was. -/
theorem find?_putAll_of_notMem {files : List (String × String)} {name : String}
    (h : name ∉ files.map (·.1)) :
    Table.find? name (folder.putAll now files).files = Table.find? name folder.files := by
  induction files generalizing folder with
  | nil => rfl
  | cons file files ih =>
    rw [List.map_cons, List.mem_cons, not_or] at h
    exact (ih _ h.2).trans (Table.find?_put_of_ne h.1 _ _)

end RunFolder

namespace RunLog

variable (log : RunLog) (now : Moment)

/-- The folders have different numbers, which, like that of the current run, are below the next one. -/
structure Numbered : Prop where
  distinct : (log.folders.map (·.id)).Nodup
  below : ∀ folder ∈ log.folders, folder.id < log.next
  current : ∀ id ∈ log.current, id < log.next

theorem numbered_empty : ({} : RunLog).Numbered where
  distinct := List.nodup_nil
  below _ h := absurd h List.not_mem_nil
  current _ h := absurd h (Option.not_mem_none _)

def change (f : RunFolder → RunFolder) : RunLog :=
  { log with
    folders := log.folders.map fun folder =>
      if log.current == some folder.id then f folder else folder }

theorem change_change {f g : RunFolder → RunFolder} (hf : ∀ folder, (f folder).id = folder.id) :
    (log.change f).change g = log.change (g ∘ f) := by
  unfold change
  rw [List.map_map]
  congr 2
  funext folder
  by_cases h : log.current = some folder.id <;> simp [h, hf]

theorem change_of_isNone (f : RunFolder → RunFolder) (h : log.current.isNone = true) :
    log.change f = log := by
  have hsame : (log.folders.map fun folder => if log.current == some folder.id then f folder else folder) =
      log.folders := by
    rw [Option.isNone_iff_eq_none.mp h]
    exact List.map_id' log.folders
  rw [change, hsame]

theorem mem_change {f : RunFolder → RunFolder} {folder' : RunFolder} (h : folder' ∈ (log.change f).folders) :
    ∃ folder ∈ log.folders, folder' = if log.current = some folder.id then f folder else folder := by
  obtain ⟨folder, hmem, rfl⟩ := List.mem_map.mp h
  refine ⟨folder, hmem, ?_⟩
  simp only [beq_iff_eq]

variable {log} {now}

theorem Numbered.change (h : log.Numbered) {f : RunFolder → RunFolder} (hf : ∀ folder, (f folder).id = folder.id) :
    (log.change f).Numbered where
  distinct := by
    have hids : (log.change f).folders.map (·.id) = log.folders.map (·.id) := by
      unfold RunLog.change
      rw [List.map_map]
      apply List.map_congr_left
      intro folder _
      by_cases hcurrent : log.current = some folder.id <;> simp [hcurrent, hf]
    rw [hids]
    exact h.distinct
  below folder' hfolder' := by
    obtain ⟨folder, hmem, rfl⟩ := log.mem_change hfolder'
    have hbelow := h.below folder hmem
    split
    · rwa [hf]
    · exact hbelow
  current := h.current

theorem Numbered.prune (h : log.Numbered) : log.prune.Numbered where
  distinct := h.distinct.sublist (List.filter_sublist.map _)
  below folder hfolder := h.below folder (List.mem_of_mem_filter hfolder)
  current := h.current

/-- A run that is started gets a folder of its own, and the others are left alone. -/
theorem start_eq (log : RunLog) (now : Moment) (request schema : String) (params : Json) :
    ∃ folder : RunFolder, folder.id = log.next ∧
      log.start now request schema params =
        ({ log with folders := log.folders ++ [folder], current := some log.next, next := log.next + 1 } :
          RunLog).change fun folder => folder.put now "metadata.json" (Json.record [("nl", .text request),
            ("params", params), ("schema_preview", .text (Text.firstChars schemaLimit schema)),
            ("started_at", .text now.text)]).indented :=
  ⟨_, rfl, rfl⟩

theorem Numbered.start (h : log.Numbered) (now : Moment) (request schema : String) (params : Json) :
    (log.start now request schema params).Numbered := by
  obtain ⟨folder, hid, heq⟩ := start_eq log now request schema params
  rw [heq]
  refine Numbered.change ?_ (fun _ => RunFolder.put_id _ _ _ _)
  constructor
  case distinct =>
    rw [List.map_append, List.map_singleton, List.nodup_append]
    refine ⟨h.distinct, List.nodup_singleton _, ?_⟩
    intro a ha b hb hab
    obtain ⟨other, hother, rfl⟩ := List.mem_map.mp ha
    have hbelow := h.below other hother
    rw [hab, List.mem_singleton.mp hb, hid] at hbelow
    exact Nat.lt_irrefl _ hbelow
  case below =>
    intro other hother
    rcases List.mem_append.mp hother with hold | hnew
    · exact Nat.lt_succ_of_lt (h.below other hold)
    · rw [List.mem_singleton.mp hnew, hid]
      exact Nat.lt_succ_self _
  case current =>
    intro id hid
    cases hid
    exact Nat.lt_succ_self _

theorem mem_start {now : Moment} {request schema : String} {params : Json}
    {folder' : RunFolder} (hmem : folder' ∈ (log.start now request schema params).folders)
    (hold : folder'.id < log.next) : folder' ∈ log.folders := by
  obtain ⟨new, hid, heq⟩ := start_eq log now request schema params
  rw [heq] at hmem
  obtain ⟨folder, hthere, rfl⟩ := RunLog.mem_change _ hmem
  by_cases hcurrent : some log.next = some folder.id
  · rw [if_pos hcurrent, RunFolder.put_id, ← Option.some.inj hcurrent] at hold
    exact absurd hold (Nat.lt_irrefl _)
  · rw [if_neg hcurrent] at hold ⊢
    rcases List.mem_append.mp hthere with hthere | hnew
    · exact hthere
    · rw [List.mem_singleton.mp hnew, hid] at hold
      exact absurd hold (Nat.lt_irrefl _)

end RunLog

theorem RunLog.noteUsage_eq (log : RunLog) (now : Moment) (usage : Json) :
    log.noteUsage now usage = log.change fun folder => folder.put now "usage.json"
      (Json.record [("usage", usage), ("logged_at", .text now.text)]).indented :=
  rfl

theorem RunLog.finish_of_isSome (log : RunLog) (h : log.current.isNone = false) (now : Moment) (status : String)
    (more : List (String × Json)) :
    log.finish now status more = (log.change fun folder => folder.put now "summary.json" (Json.record
      (more.foldl (fun sofar (name, value) => Json.setMember name value sofar)
        [("status", .text status), ("finished_at", .text now.text)])).indented).prune := by
  rw [RunLog.finish, h]
  rfl

namespace Compiler

variable (c : Compiler) (now : Moment) (request : String) (usage : Usage)

def report (result : Compiled) : List String :=
  (Report.lines request (result.timeline.map (·.toJson)) c.maxRegenerations).toOption.getD []

/-- The files that a result leaves in the folder of the current run. Where the report cannot be written, there
is an empty one and nothing after it. -/
def records (result : Compiled) : List (String × String) :=
  let summary := [("soql", Json.ofText? result.query), ("corrections", Json.ofTexts result.corrections)].foldl
    (fun sofar (name, value) => Json.setMember name value sofar)
    [("status", .text result.status.text), ("finished_at", .text now.text)]
  ("timeline.json", (Json.record [("nl", .text request), ("timeline", .list (result.timeline.map (·.toJson))),
    ("logged_at", .text now.text)]).indented) ::
  if (c.report request result).all Text.isWhole then
    [("timeline.txt", Report.text (c.report request result)),
      ("usage.json", (Json.record [("usage", usage.toJson), ("logged_at", .text now.text)]).indented),
      ("summary.json", (Json.record summary).indented)]
  else [("timeline.txt", "")]

theorem noteTimeline_eq (result : Compiled) {log : RunLog} (hcurrent : log.current.isNone = false) :
    log.noteTimeline now request (result.timeline.map (·.toJson)) c.maxRegenerations =
      (if (c.report request result).all Text.isWhole then .ok () else .error .halved,
        log.change fun folder => folder.putAll now ((c.records now request usage result).take 2)) := by
  obtain ⟨report, hreport⟩ := Report.lines_ok request result.timeline c.maxRegenerations
  have hmade : c.report request result = report := by
    rw [Compiler.report, hreport]
    rfl
  rw [RunLog.noteTimeline, hcurrent, hreport, records, hmade, if_neg Bool.false_ne_true]
  dsimp only
  cases report.all Text.isWhole with
  | true => exact congrArg (Prod.mk _) (log.change_change fun _ => rfl)
  | false => exact congrArg (Prod.mk _) (log.change_change fun _ => rfl)

/-- A result is noted in the folder of the current run, if there is one, and then old folders are
dropped. -/
theorem noteResult_eq (result : Compiled) (log : RunLog) :
    noteResult c now request usage result log =
      if log.current.isNone then (.ok (), log)
      else
        let noted := log.change fun folder => folder.putAll now (c.records now request usage result)
        if (c.report request result).all Text.isWhole then (.ok (), noted.prune) else (.error .halved, noted) := by
  cases hcurrent : log.current.isNone with
  | true =>
    have hfinish : RunLog.finish (log.noteUsage now usage.toJson) now result.status.text
        [("soql", .ofText? result.query), ("corrections", .ofTexts result.corrections)] = log := by
      rw [RunLog.noteUsage_eq, log.change_of_isNone _ hcurrent, RunLog.finish, if_pos hcurrent]
    rw [noteResult, RunLog.noteTimeline, if_pos hcurrent, if_pos rfl]
    exact congrArg (Prod.mk _) hfinish
  -- Where the report can be written, usage and summary follow it into the same folder.
  | false =>
    rw [noteResult, noteTimeline_eq c now request usage result hcurrent, records]
    cases (c.report request result).all Text.isWhole with
    | true =>
      refine congrArg (Prod.mk _) ?_
      rw [RunLog.noteUsage_eq, log.change_change fun folder => folder.putAll_id now _,
        RunLog.finish_of_isSome (log.change _) hcurrent]
      exact congrArg RunLog.prune (log.change_change fun folder => folder.putAll_id now _)
    | false => rfl

variable (result : Compiled) {log : RunLog}

theorem noteResult_current : (noteResult c now request usage result log).2.current = log.current := by
  rw [noteResult_eq]
  split
  · rfl
  · dsimp only
    split <;> rfl

theorem noteResult_next : (noteResult c now request usage result log).2.next = log.next := by
  rw [noteResult_eq]
  split
  · rfl
  · dsimp only
    split <;> rfl

theorem noteResult_numbered (h : log.Numbered) : (noteResult c now request usage result log).2.Numbered := by
  have hnoted := h.change (f := fun folder => folder.putAll now (c.records now request usage result))
    fun folder => folder.putAll_id now _
  rw [noteResult_eq]
  split
  · exact h
  · dsimp only
    split
    · exact hnoted.prune
    · exact hnoted

theorem mem_noteResult {folder' : RunFolder}
    (h : folder' ∈ (noteResult c now request usage result log).2.folders) :
    ∃ folder ∈ log.folders, folder' =
      if log.current = some folder.id then folder.putAll now (c.records now request usage result) else folder := by
  rw [noteResult_eq] at h
  split at h
  case isTrue hcurrent =>
    refine ⟨folder', h, ?_⟩
    rw [Option.isNone_iff_eq_none.mp hcurrent]
    rfl
  case isFalse hcurrent =>
    dsimp only at h
    split at h
    · exact log.mem_change (List.mem_of_mem_filter h)
    · exact log.mem_change h

/-- Where all could be noted, the usage that was handed over can be read in the folder of the run. -/
theorem find?_usage_noteResult {folder : RunFolder}
    (hnoted : (noteResult c now request usage result log).1 = .ok ())
    (h : folder ∈ (noteResult c now request usage result log).2.folders) (hcurrent : log.current = some folder.id) :
    Table.find? "usage.json" folder.files =
      some (Json.record [("usage", usage.toJson), ("logged_at", .text now.text)]).indented := by
  have hwhole : (c.report request result).all Text.isWhole = true := by
    rw [noteResult_eq, hcurrent] at hnoted
    by_contra hwhole
    simp [hwhole] at hnoted
  obtain ⟨old, -, rfl⟩ := mem_noteResult c now request usage result h
  have hold : log.current = some old.id := by
    split at hcurrent
    case isTrue hold => exact hold
    case isFalse => exact hcurrent
  rw [if_pos hold, records, if_pos hwhole]
  exact (Table.find?_put_of_ne (by decide) _ _).trans (Table.find?_put_self _ _ _)

end Compiler

end Soql
