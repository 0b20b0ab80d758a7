import Soql.Failure
import Soql.Json.Printer
import Soql.Text.Casing
import Soql.Text.Cut

namespace Soql.Report

open Text

def rule : String :=
  .ofList (List.replicate 80 '=')

def mark (success : Bool) : String :=
  if success then "✓" else "✗"

def clipped (width : Nat) (s : String) : String :=
  if s.length ≤ width then s else firstChars (width - 3) s ++ "..."

def member (entry : Json) (name : String) (absent : Json) : Json :=
  (entry.get? name).getD absent

def listMember (entry : Json) (name : String) : Except Failure (List Json) :=
  match member entry name (.list []) with
  | .list items => .ok items
  | .text s => .ok (s.toList.map fun c => .text (.ofList [c]))
  | _ => .error .wrongKind

def itemText (item : Json) : Except Failure String :=
  match item with
  | .text s => .ok s
  | _ => .error .wrongKind

def listed (items : List Json) : Except Failure String := do
  return joined ", " (← items.mapM itemText)

def heading (title : String) : List String :=
  ["", "┌─ " ++ title]

def contextLines (entry : Json) : Except Failure (List String) := do
  let objects ← listed (← listMember entry "objects")
  let grounding := member entry "grounding" (.list [])
  let found ← if grounding.isGiven then listMember entry "grounding" else pure []
  let shown ← listed (found.take 5)
  return heading "CONTEXT" ++ ["│  Objects: " ++ objects] ++
    (if found.isEmpty then []
      else ["│  Grounded: " ++ shown ++ if found.length > 5 then "..." else ""]) ++
    (if (entry.get "degraded").isGiven then
      ["│  Vector signal unavailable (lexical + graph only)"]
    else []) ++
    ["└─"]

def planLines (entry : Json) : Except Failure (List String) := do
  let plan := (entry.get "plan").orElse (.record [])
  let tables ← listed (← listMember plan "relevant_tables")
  let errors ← listMember entry "errors"
  return heading "PLAN" ++
    ["│  " ++ clipped 80 (member plan "summary" (.text "")).plain, "│  Tables: " ++ tables] ++
    (errors.take 2).map (fun e => "│    - " ++ e.plain) ++
    ["└─ " ++ mark (entry.get "plan").isGiven]

def draftLines (entry : Json) : Except Failure (List String) := do
  let errors ← listMember entry "parse_errors"
  let complaints ← (errors.take 2).mapM itemText
  let query := trimmed (member entry "query" (.text "")).plain
  return heading ("DRAFT " ++ (member entry "attempt" (.int 0)).plain) ++
    (splitAt '\n' query).map (fun line => "│    " ++ line) ++
    complaints.map (fun e => "│    - Parse: " ++ clipped 60 e) ++
    ["└─ " ++ mark errors.isEmpty ++ if errors.isEmpty then " parsed" else " did not parse"]

def repairLines (entry : Json) : Except Failure (List String) := do
  let count (name : String) : String := (member entry name (.int 0)).plain
  let actions ← ((← listMember entry "actions").take 3).mapM itemText
  return ["│  Repair pass " ++ (entry.get "pass").plain ++ ": " ++ count "errors_before" ++ " -> " ++
      count "errors_after" ++ " error(s)"] ++
    actions.map (fun a => "│    - Applied: " ++ clipped 60 a) ++
    if (entry.get "rolled_back").isGiven then ["│    - Rolled back"] else []

def finalLines (entry : Json) : List String :=
  let status := (member entry "status" (.text "unknown")).plain
  let query := entry.get "soql"
  heading "FINAL RESULT" ++ ["│  Status: " ++ mark (status == "valid") ++ " " ++ upper status] ++
    (if query.isGiven then ["│  Query: " ++ query.plain] else []) ++ ["└─"]

/-- The lines on an entry; one of an unknown phase has none. -/
def entryLines (entry : Json) : Except Failure (List String) :=
  match entry.get "phase" with
  | .text "context" => contextLines entry
  | .text "plan" => planLines entry
  | .text "draft" => draftLines entry
  | .text "repair" => repairLines entry
  | .text "limit" => .ok ["│  Applied suggested LIMIT"]
  | .text "regenerate" =>
    .ok ["", ">>> REGENERATE (" ++ (member entry "reason" (.text "")).plain ++ ")"]
  | .text "final" => .ok (finalLines entry)
  | _ => .ok []

def lines (request : String) (timeline : List Json) (maxRegenerations : Int) :
    Except Failure (List String) := do
  let entries ← timeline.mapM entryLines
  return [rule, "COMPILATION SUMMARY", rule, "Query: " ++ request,
      "Max regenerations: " ++ toString maxRegenerations] ++
    entries.flatten ++ ["", rule]

def text (lines : List String) : String :=
  joined "\n" lines

end Soql.Report
