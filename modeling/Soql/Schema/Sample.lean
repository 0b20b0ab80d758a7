import Soql.Schema.Graph

namespace Soql.Sample

def plain (name label kind : String) : Field :=
  { name, label, kind }

def choice (name label : String) (values : List String) : Field :=
  { name, label, kind := "picklist", values }

def lookup (name label relationship : String) (targets : List String) : Field :=
  { name, label, kind := "reference", targets, relationship := some relationship }

def object (name label category : String) (recordCount : Option Int) (description : String)
    (fields : List Field) (children : List ChildLink) : SObject :=
  { name, label, description, fields, children, recordCount
    category := some category
    parents := parentLinks fields }

def account : SObject :=
  object "Account" "Account" "business_core" (some 120000)
    "Companies and organizations you do business with" [
    plain "Id" "Account ID" "id",
    plain "Name" "Account Name" "string",
    choice "Industry" "Industry"
      ["Technology", "Finance", "Healthcare", "Retail", "Manufacturing", "Energy"],
    choice "Type" "Account Type"
      ["Prospect", "Customer - Direct", "Customer - Channel", "Partner"],
    plain "AnnualRevenue" "Annual Revenue" "currency",
    plain "NumberOfEmployees" "Employees" "int",
    plain "BillingCity" "Billing City" "string",
    plain "BillingState" "Billing State/Province" "string",
    choice "Rating" "Account Rating" ["Hot", "Warm", "Cold"],
    lookup "OwnerId" "Owner ID" "Owner" ["User"],
    lookup "ParentId" "Parent Account ID" "Parent" ["Account"],
    plain "CreatedDate" "Created Date" "datetime",
    plain "SystemModstamp" "System Modstamp" "datetime"]
    [
      ⟨"Contacts", "Contact", "AccountId"⟩, ⟨"Opportunities", "Opportunity", "AccountId"⟩,
      ⟨"Cases", "Case", "AccountId"⟩, ⟨"AccountTeamMembers", "AccountTeamMember", "AccountId"⟩,
      ⟨"ChildAccounts", "Account", "ParentId"⟩]

def contact : SObject :=
  object "Contact" "Contact" "business_core" (some 40000)
    "People associated with accounts" [
    plain "Id" "Contact ID" "id",
    plain "Name" "Full Name" "string",
    plain "FirstName" "First Name" "string",
    plain "LastName" "Last Name" "string",
    plain "Email" "Email" "email",
    plain "Phone" "Business Phone" "phone",
    plain "Title" "Title" "string",
    lookup "AccountId" "Account ID" "Account" ["Account"],
    lookup "OwnerId" "Owner ID" "Owner" ["User"],
    plain "CreatedDate" "Created Date" "datetime",
    plain "SystemModstamp" "System Modstamp" "datetime"]
    [
      ⟨"Cases", "Case", "ContactId"⟩,
      ⟨"OpportunityContactRoles", "OpportunityContactRole", "ContactId"⟩,
      ⟨"Tasks", "Task", "WhoId"⟩]

def opportunity : SObject :=
  object "Opportunity" "Opportunity" "business_core" (some 80000)
    "Sales deals in progress" [
    plain "Id" "Opportunity ID" "id",
    plain "Name" "Opportunity Name" "string",
    choice "StageName" "Stage"
      ["Prospecting", "Qualification", "Needs Analysis", "Proposal", "Negotiation", "Closed Won",
       "Closed Lost"],
    plain "Amount" "Amount" "currency",
    plain "CloseDate" "Close Date" "date",
    plain "IsClosed" "Closed" "boolean",
    plain "IsWon" "Won" "boolean",
    lookup "AccountId" "Account ID" "Account" ["Account"],
    lookup "OwnerId" "Owner ID" "Owner" ["User"],
    plain "CreatedDate" "Created Date" "datetime",
    plain "SystemModstamp" "System Modstamp" "datetime"]
    [
      ⟨"OpportunityTeamMembers", "OpportunityTeamMember", "OpportunityId"⟩,
      ⟨"OpportunityContactRoles", "OpportunityContactRole", "OpportunityId"⟩,
      ⟨"Tasks", "Task", "WhatId"⟩]

def caseObject : SObject :=
  object "Case" "Case" "business_core" (some 250000)
    "Customer support issues" [
    plain "Id" "Case ID" "id",
    plain "CaseNumber" "Case Number" "string",
    plain "Subject" "Subject" "string",
    choice "Status" "Status" ["New", "Working", "Escalated", "Closed"],
    choice "Priority" "Priority" ["High", "Medium", "Low"],
    plain "IsClosed" "Closed" "boolean",
    lookup "AccountId" "Account ID" "Account" ["Account"],
    lookup "ContactId" "Contact ID" "Contact" ["Contact"],
    lookup "OwnerId" "Owner ID" "Owner" ["User", "Group"],
    plain "CreatedDate" "Created Date" "datetime",
    plain "SystemModstamp" "System Modstamp" "datetime"]
    [
      ⟨"Tasks", "Task", "WhatId"⟩]

def user : SObject :=
  object "User" "User" "business_core" (some 500)
    "People who log in to the org" [
    plain "Id" "User ID" "id",
    plain "Name" "Full Name" "string",
    plain "FirstName" "First Name" "string",
    plain "LastName" "Last Name" "string",
    plain "Email" "Email" "email",
    plain "IsActive" "Active" "boolean",
    plain "CreatedDate" "Created Date" "datetime",
    plain "SystemModstamp" "System Modstamp" "datetime"]
    []

def group : SObject :=
  object "Group" "Group" "system" (some 50)
    "" [
    plain "Id" "Group ID" "id",
    plain "Name" "Name" "string",
    choice "Type" "Type" ["Queue", "Regular"]]
    []

def lead : SObject :=
  object "Lead" "Lead" "business_core" (some 60000)
    "Prospects that have not been converted" [
    plain "Id" "Lead ID" "id",
    plain "Name" "Full Name" "string",
    plain "FirstName" "First Name" "string",
    plain "LastName" "Last Name" "string",
    plain "Company" "Company" "string",
    plain "Email" "Email" "email",
    choice "Status" "Lead Status"
      ["Open - Not Contacted", "Working - Contacted", "Closed - Converted",
       "Closed - Not Converted"],
    lookup "OwnerId" "Owner ID" "Owner" ["User", "Group"],
    plain "CreatedDate" "Created Date" "datetime",
    plain "SystemModstamp" "System Modstamp" "datetime"]
    [
      ⟨"Tasks", "Task", "WhoId"⟩]

def task : SObject :=
  object "Task" "Task" "business_core" (some 300000)
    "Activities such as calls and to-dos" [
    plain "Id" "Activity ID" "id",
    plain "Subject" "Subject" "string",
    choice "Status" "Status" ["Not Started", "In Progress", "Completed"],
    choice "Priority" "Priority" ["High", "Normal", "Low"],
    plain "ActivityDate" "Due Date" "date",
    lookup "WhoId" "Name ID" "Who" ["Contact", "Lead"],
    lookup "WhatId" "Related To ID" "What" ["Account", "Opportunity", "Case"],
    lookup "OwnerId" "Assigned To ID" "Owner" ["User"],
    plain "CreatedDate" "Created Date" "datetime",
    plain "SystemModstamp" "System Modstamp" "datetime"]
    []

def opportunityTeamMember : SObject :=
  object "OpportunityTeamMember" "Opportunity Team Member" "business_extended" (some 9000)
    "" [
    plain "Id" "Opportunity Team Member ID" "id",
    plain "Name" "Name" "string",
    lookup "OpportunityId" "Opportunity ID" "Opportunity" ["Opportunity"],
    lookup "UserId" "User ID" "User" ["User"],
    choice "TeamMemberRole" "Team Role"
      ["Account Manager", "Sales Rep", "Sales Engineer", "Executive Sponsor"],
    plain "CreatedDate" "Created Date" "datetime",
    plain "SystemModstamp" "System Modstamp" "datetime"]
    []

def opportunityContactRole : SObject :=
  object "OpportunityContactRole" "Opportunity Contact Role" "business_extended" (some 15000)
    "" [
    plain "Id" "Opportunity Contact Role ID" "id",
    lookup "OpportunityId" "Opportunity ID" "Opportunity" ["Opportunity"],
    lookup "ContactId" "Contact ID" "Contact" ["Contact"],
    choice "Role" "Role" ["Decision Maker", "Economic Buyer", "Influencer", "Evaluator"],
    plain "IsPrimary" "Primary" "boolean",
    plain "CreatedDate" "Created Date" "datetime",
    plain "SystemModstamp" "System Modstamp" "datetime"]
    []

def accountTeamMember : SObject :=
  object "AccountTeamMember" "Account Team Member" "business_extended" (some 3000)
    "" [
    plain "Id" "Account Team Member ID" "id",
    lookup "AccountId" "Account ID" "Account" ["Account"],
    lookup "UserId" "User ID" "User" ["User"],
    choice "TeamMemberRole" "Team Role" ["Account Manager", "Sales Rep"],
    plain "CreatedDate" "Created Date" "datetime",
    plain "SystemModstamp" "System Modstamp" "datetime"]
    []

def entityDefinition : SObject :=
  object "EntityDefinition" "Entity Definition" "system" none
    "" [
    plain "Id" "ID" "id",
    plain "QualifiedApiName" "Qualified API Name" "string",
    plain "Label" "Label" "string",
    plain "IsCustomizable" "Customizable" "boolean"]
    []

def objects : List SObject := [
  account, contact, opportunity, caseObject, user, group, lead, task, opportunityTeamMember,
  opportunityContactRole, accountTeamMember, entityDefinition]

def records : List Record := [
  ⟨"Account", "001000000000001AAA", "Microsoft Corp", [("Industry", .text "Technology")]⟩,
  ⟨"Account", "001000000000002AAA", "Acme Corporation", [("Industry", .text "Manufacturing")]⟩,
  ⟨"Account", "001000000000003AAA", "Globex Inc", [("Industry", .text "Energy")]⟩,
  ⟨"Contact", "003000000000001AAA", "Jane Doe", [("Email", .text "jane.doe@acme.example")]⟩,
  ⟨"Opportunity", "006000000000001AAA", "Acme Renewal", [("StageName", .text "Negotiation")]⟩]

def schema : Holdings where
  objects := Catalog.ofObjects objects
  records := records

end Soql.Sample
