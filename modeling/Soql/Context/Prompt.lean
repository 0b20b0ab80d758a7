import Soql.Context.Basic

namespace Soql.Context

open Text

def queryingAdvice : String :=
  "1. PARENT LOOKUP (preferred): dot notation in SELECT, e.g. SELECT Id, Account.Name FROM Contact.\n" ++
  "   Never use a sub-query for a parent: (SELECT Name FROM Account) is invalid.\n" ++
  "2. SEMI-JOIN FILTER: filter parents by child criteria without returning children,\n" ++
  "   e.g. SELECT Id, Name FROM Account WHERE Id IN (SELECT AccountId FROM Case WHERE Status = 'Open').\n" ++
  "3. CHILD SUB-QUERY: only when the request asks for a list of related children,\n" ++
  "   e.g. SELECT Id, Name, (SELECT Id, Subject FROM Cases) FROM Account."

def dateAdvice : String :=
  "DATE FIELDS: use SOQL date literals (TODAY, LAST_N_DAYS:30, THIS_MONTH, ...) instead of computed dates."

def polymorphicAdvice : String :=
  "POLYMORPHIC FIELDS: WhoId/WhatId/OwnerId are id fields; Who/What/Owner are relationship names.\n" ++
  "- Never navigate the id field (Task.WhoId.Name is invalid).\n" ++
  "- Use TYPEOF on the relationship: SELECT TYPEOF Who WHEN Contact THEN FirstName, LastName END FROM Task.\n" ++
  "- Filter the target type with Relationship.Type, e.g. WHERE What.Type = 'Account'."

def fieldText (f : Field) : String :=
  let relationship := f.relationship.filter (!·.isEmpty)
  let content :=
    if !f.values.isEmpty then f.kind ++ ":" ++ joined "|" (f.values.take 5)
    else if f.isPolymorphic then
      "POLYMORPHIC:" ++ relationship.getD "relationship" ++ "->" ++ joined "/" (f.targets.take 3)
    else match relationship with
      | some r => if f.isReference then "reference:" ++ r ++ "->" ++ joined "/" f.targets else f.kind
      | none => f.kind
  f.name ++ "(" ++ content ++ ")"

def objectLines (shown : List String) (o : SObject) : List String :=
  let category := match o.category with
    | some c => if c.isEmpty then "" else " [" ++ c ++ "]"
    | none => ""
  let parents := (o.parents.filter fun l => shown.contains l.target).map fun l =>
    l.relationship ++ "->" ++ l.target
  let children := (o.children.filter fun l => shown.contains l.object).map fun l =>
    l.relationship ++ "->" ++ l.object
  [o.name ++ " (" ++ o.label ++ ")" ++ category ++ ":",
    "  Fields: " ++ joined ", " (o.fields.map fieldText)] ++
  (if parents.isEmpty then [] else ["  Parents: " ++ joined ", " (sortedTexts parents.eraseDups)]) ++
  (if children.isEmpty then [] else ["  Children: " ++ joined ", " children])

def intentLine (i : Intent) : String :=
  let style := match i.kind with
    | .parent => "dot notation"
    | .children => "child sub-query"
  "- \"" ++ i.phrase ++ "\": " ++ i.source ++ " -> " ++ i.target ++ " (" ++ style ++ ")"

/-- The objects to show: those among the given tables, or all when there is none. -/
def shownObjects (c : Context) (tables : List String) : List SObject :=
  let wanted := tables.map lower
  match c.objects.filter fun o => wanted.contains (lower o.name) with
  | [] => c.objects
  | chosen => chosen

def isDateField (f : Field) : Bool :=
  f.kind == "date" || f.kind == "datetime" || f.name == "CreatedDate"

def format (c : Context) (tables : List String) : String :=
  let objects := c.shownObjects tables
  if objects.isEmpty then "No specific schema context available. Use standard object names."
  else
    let fields := objects.flatMap (·.fields)
    let names := objects.map (·.name)
    joined "\n" (
      [queryingAdvice] ++
      (if fields.any isDateField then [dateAdvice] else []) ++
      (if fields.any (·.isPolymorphic) then [polymorphicAdvice] else []) ++
      ["", "SCHEMA:"] ++
      objects.flatMap (objectLines names) ++
      (if c.intents.isEmpty then []
        else ["", "RELATIONSHIP HINTS:"] ++ c.intents.map intentLine))

def valueNotes (c : Context) : String :=
  let lines := (c.grounding.filter (·.isGrounded)).map fun g => "- " ++ g.hint
  if lines.isEmpty then "none" else joined "\n" lines

end Soql.Context
