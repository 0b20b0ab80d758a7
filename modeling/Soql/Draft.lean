import Soql.Context.Prompt
import Soql.Dialogue
import Soql.Plan.Basic

namespace Soql

open Text

structure Draft where
  query : String
  /-- what the model says before its query -/
  reason : Option String
  /-- the whole reply -/
  raw : String
  /-- what the model was told of its earlier attempt -/
  feedback : List String
  deriving DecidableEq, Repr, Inhabited

namespace Draft

def instructions : String :=
  joined "\n" [
    "You are an expert Salesforce developer translating a plan into one SOQL query.",
    "- Use only the objects and fields in the pruned schema; never invent fields.",
    "- Parent fields use dot notation (Account.Name); child lists use a sub-query on the child " ++
        "relationship name.",
    "- Junction objects (OpportunityTeamMember, OpportunityContactRole, AccountTeamMember, " ++
        "CaseTeamMember) are reached with a semi-join: WHERE Id IN (SELECT OpportunityId FROM " ++
        "OpportunityTeamMember WHERE ...). Never navigate downwards like " ++
        "OpportunityTeamMember.User.Name.",
    "- No AS keyword for aliases, no bind variables, no JOIN, UNION, EXCEPT, INTERSECT, EXISTS " ++
        "or IS NULL.",
    "- Sub-queries in WHERE must follow IN or NOT IN.",
    "- Every non-aggregated selected field must appear in GROUP BY when aggregates are used.",
    "- Use the entity hints as literal filter values.",
    "- Explain the strategy briefly, then give the final query in a ```soql block."]

def solvedRequests : String :=
  joined "\n" [
    "Request: accounts in the technology industry with their open cases",
    "```soql",
    "SELECT Id, Name, (SELECT Id, Subject FROM Cases WHERE IsClosed = false) FROM Account " ++
        "WHERE Industry = 'Technology'",
    "```",
    "",
    "Request: opportunities Jane Doe is working on",
    "```soql",
    "SELECT Id, Name, StageName FROM Opportunity WHERE Id IN (SELECT OpportunityId FROM " ++
        "OpportunityTeamMember WHERE User.Name = 'Jane Doe')",
    "```",
    "",
    "Request: number of accounts per industry",
    "```soql",
    "SELECT Industry, COUNT(Id) FROM Account GROUP BY Industry",
    "```",
    "",
    "Request: tasks with the name of the related contact or lead",
    "```soql",
    "SELECT Id, Subject, TYPEOF Who WHEN Contact THEN FirstName, LastName WHEN Lead THEN Name, " ++
        "Company END FROM Task LIMIT 1000",
    "```"]

def feedbackLimit : Nat :=
  8

def latest (feedback : List String) : List String :=
  feedback.drop (feedback.length - feedbackLimit)

def feedbackText (feedback : List String) : String :=
  if feedback.isEmpty then "none" else "- " ++ joined "\n- " feedback

def prompt (request : String) (plan : Plan) (context : Context) (feedback : List String) :
    Prompt where
  system := instructions
  user := joined "\n" [
    "Worked examples:", solvedRequests, "",
    "Request: \"" ++ request ++ "\"", "",
    "Plan:", plan.toJson.indented, "",
    "Pruned schema:", context.format plan.tables, "",
    "Entity hints:", context.valueNotes, "",
    "Problems with the previous attempt (fix all of them):", feedbackText (latest feedback), ""]

def reasonIn (reply : String) : Option String :=
  let head := match cutAtFirst fence reply.toList with
    | some (head, _) => head
    | none => reply.toList
  let reason := trim head
  if reason.isEmpty then none else some (.ofList reason)

/-- The draft in a reply: the query it holds, or the whole reply when it holds none. -/
def ofReply (reply : String) (feedback : List String) : Draft :=
  match queryIn reply with
  | some query => ⟨query, reasonIn reply, reply, feedback⟩
  | none => ⟨unfenced reply, none, reply, feedback⟩

def make (request : String) (plan : Plan) (context : Context) (feedback : List String) :
    Dialogue Draft := do
  let reply ← Dialogue.askOr (.completion .code (prompt request plan context feedback))
    (Failure.during "completion" "coder call failed") id
  return ofReply reply (latest feedback)

end Draft

end Soql
