import Soql.Context.Prompt
import Soql.Dialogue
import Soql.Plan.Basic

namespace Soql.Plan

open Text

def instructions : String :=
  joined "\n" [
    "You plan Salesforce SOQL queries. You do not write code.",
    "- Junction objects are mandatory when the wording implies them:",
    "  'working on'/'collaborating'/'assigned to'/'team member' (opportunities) -> " ++
        "OpportunityTeamMember;",
    "  'contact role'/'contact on deal' -> OpportunityContactRole; 'account team' -> " ++
        "AccountTeamMember;",
    "  'case team'/'working the case' -> CaseTeamMember.",
    "- 'owned by <name>' means the Owner relationship (Owner.Name); never OwnerId LIKE.",
    "- Only list objects present in the schema below; always include the primary object.",
    "- Prefer tables and fields named in the grounding notes.",
    "- Emit strictly the JSON shape requested."]

def answerForm : List String := [
  "Emit JSON:",
  "\x7b",
  "  \"summary\": \"Retrieve ...\",",
  "  \"relevant_tables\": [\"Opportunity\", \"Account\"],",
  "  \"relevant_columns\": [\"Opportunity.Name\", \"Account.Name\"],",
  "  \"join_logic\": \"how the tables connect\",",
  "  \"global_context\": \"anything the coder must know\"",
  "\x7d"]

def prompt (request : String) (context : Context) : Prompt where
  system := instructions
  user := joined "\n" (
    ["Request: \"" ++ request ++ "\"", "", "Schema:", context.format [], "", "Grounding notes:",
      context.valueNotes, ""] ++ answerForm ++ [""])

def make (request : String) (context : Context) : Dialogue (Except PlanError Plan) := do
  let reply ← Dialogue.askOr (.completion .plan (prompt request context))
    (Failure.during "completion" "planner call failed") id
  return (read reply).map (·.adjusted request context)

end Soql.Plan
