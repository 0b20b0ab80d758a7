import Soql.Compilation.Report
import Soql.Table
import Soql.Usage

namespace Soql

open Text

structure Moment where
  seconds : Int := 0
  text : String := ""
  deriving DecidableEq, Repr, Inhabited

structure RunFolder where
  id : Nat
  name : String
  /-- when a file was last added -/
  changed : Int
  files : List (String × String) := []
  deriving DecidableEq, Repr, Inhabited

structure RunLog where
  retain : Int := 20
  folders : List RunFolder := []
  current : Option Nat := none
  /-- the number of the next folder -/
  next : Nat := 0
  deriving DecidableEq, Repr, Inhabited

def RunFolder.put (folder : RunFolder) (now : Moment) (name text : String) : RunFolder :=
  { folder with
    files := Table.put name text folder.files
    changed := if (Table.find? name folder.files).isSome then folder.changed else now.seconds }

namespace RunLog

def schemaLimit : Nat :=
  4000

def nameLimit : Nat :=
  36

def hyphenated (afterHyphen : Bool) : List Char → List Char
  | [] => []
  | c :: rest =>
    if c.isAlphanum then c :: hyphenated false rest
    else if afterHyphen then hyphenated true rest
    else '-' :: hyphenated true rest

def folderName (request : String) : String :=
  let name := dropEnds (· == '-') ((hyphenated false (trim request.toList)).take nameLimit)
  if name.isEmpty then "run" else .ofList name

variable (log : RunLog) (now : Moment)

def currentFolder? : Option RunFolder :=
  log.current.bind fun id => log.folders.find? (·.id == id)

def write (name text : String) : RunLog :=
  { log with
    folders := log.folders.map fun folder =>
      if log.current == some folder.id then folder.put now name text else folder }

def writeRecord (name : String) (members : List (String × Json)) : RunLog :=
  log.write now name (Json.record members).indented

/-- Starts a run: it gets a folder of its own. -/
def start (request schema : String) (params : Json) : RunLog :=
  let folder : RunFolder := { id := log.next, name := folderName request, changed := now.seconds }
  let log := { log with
    folders := log.folders ++ [folder], current := some log.next, next := log.next + 1 }
  log.writeRecord now "metadata.json" [("nl", .text request), ("params", params),
    ("schema_preview", .text (firstChars schemaLimit schema)), ("started_at", .text now.text)]

/-- Notes the timeline of the current run, as a record and as a text. Where the text cannot be made or
written, the record is there already. -/
def noteTimeline (request : String) (timeline : List Json) (maxRegenerations : Int) :
    Except Failure Unit × RunLog :=
  if log.current.isNone then (.ok (), log)
  else
    let recorded := log.writeRecord now "timeline.json" [("nl", .text request), ("timeline", .list timeline),
      ("logged_at", .text now.text)]
    match Report.lines request timeline maxRegenerations with
    | .error f => (.error f, recorded)
    | .ok lines =>
      -- Between the lines there are only line ends.
      if lines.all isWhole then (.ok (), recorded.write now "timeline.txt" (Report.text lines))
      else (.error .halved, recorded.write now "timeline.txt" "")

def noteUsage (usage : Json) : RunLog :=
  log.writeRecord now "usage.json" [("usage", usage), ("logged_at", .text now.text)]

/-- Drops the folders that changed longest ago, except that of the current run, so that no more stay
than are to be kept. -/
def prune : RunLog :=
  let latest := log.folders.mergeSort fun a b => decide (b.changed ≤ a.changed)
  let stale := (latest.drop (max 1 log.retain).toNat).map (·.id)
  { log with
    folders := log.folders.filter fun folder =>
      log.current == some folder.id || !stale.contains folder.id }

def finish (status : String) (more : List (String × Json)) : RunLog :=
  if log.current.isNone then log
  else
    let summary := [("status", .text status), ("finished_at", .text now.text)]
    let members := more.foldl (fun sofar (name, value) => Json.setMember name value sofar) summary
    (log.writeRecord now "summary.json" members).prune

end RunLog

end Soql
