import Soql.Text.Pattern

namespace Soql.Vocabulary

open Soql.Text Soql.Text.Pattern

def objectSynonyms : List (String × List String) := [
  ("Account", [
    "acct", "acc", "company", "companies", "organization", "client", "customer", "business",
    "vendor"]),
  ("Contact", ["con", "person", "people", "individual"]),
  ("Opportunity", ["opp", "oppty", "deal", "deals", "potential sale", "pipeline"]),
  ("Lead", ["ld", "prospect", "potential customer", "suspect", "inquiry"]),
  ("Case", ["ticket", "tickets", "issue", "problem", "incident", "support request", "complaint"]),
  ("Task", ["todo", "action item", "reminder"]),
  ("Event", ["meeting", "appointment", "calendar entry"]),
  ("User", ["agent", "rep", "reps", "employee", "owner", "staff member"]),
  ("Campaign", ["camp", "promo", "marketing initiative", "promotion"]),
  ("Product2", ["product", "products", "merchandise", "sku"]),
  ("Pricebook2", ["pricebook", "price list"]),
  ("Contract", ["agreement", "covenant"]),
  ("Order", ["purchase order", "requisition"]),
  ("Asset", ["equipment", "purchased item"]),
  ("Quote", ["proposal", "estimate", "bid"]),
  ("OpportunityLineItem", ["opportunity product", "line item", "deal product"]),
  ("Entitlement", ["sla", "support level"]),
  ("ContentVersion", ["file", "document", "attachment"]),
  ("UserRole", ["role", "job function"]),
  ("Group", ["queue", "public group"]),
  ("RecordType", ["record type"])]

def synonymPairs : List (String × String) :=
  objectSynonyms.flatMap fun (object, words) =>
    (lower object, object) :: words.map fun word => (word, object)

/-- The standard object that a lower case word stands for; of several the first one listed. -/
def objectOf? (word : String) : Option String :=
  synonymPairs.lookup word

def synonymsOf (object : String) : List String :=
  (objectSynonyms.lookup object).getD []

def statusWords : List (String × String) := [
  ("open", "Open"), ("closed", "Closed"), ("new", "New"), ("active", "Active"),
  ("inactive", "Inactive"), ("pending", "Pending"), ("in progress", "In Progress"),
  ("completed", "Completed"), ("cancelled", "Cancelled"), ("on hold", "On Hold"),
  ("escalated", "Escalated"), ("resolved", "Resolved"), ("won", "Closed Won"),
  ("lost", "Closed Lost")]

def priorityWords : List (String × String) := [
  ("high", "High"), ("medium", "Medium"), ("low", "Low"), ("critical", "Critical"),
  ("urgent", "Urgent"), ("highest", "Highest"), ("lowest", "Lowest"), ("normal", "Normal")]

def dateLiterals : List String := [
  "TODAY", "YESTERDAY", "TOMORROW", "LAST_WEEK", "THIS_WEEK", "NEXT_WEEK", "LAST_MONTH",
  "THIS_MONTH", "NEXT_MONTH", "LAST_QUARTER", "THIS_QUARTER", "NEXT_QUARTER", "LAST_YEAR",
  "THIS_YEAR", "NEXT_YEAR", "LAST_90_DAYS", "NEXT_90_DAYS", "LAST_N_DAYS", "NEXT_N_DAYS"]

def dateWords : List (String × String) := [
  ("today", "TODAY"), ("yesterday", "YESTERDAY"), ("tomorrow", "TOMORROW"),
  ("this week", "THIS_WEEK"), ("last week", "LAST_WEEK"), ("next week", "NEXT_WEEK"),
  ("this month", "THIS_MONTH"), ("last month", "LAST_MONTH"), ("next month", "NEXT_MONTH"),
  ("this quarter", "THIS_QUARTER"), ("last quarter", "LAST_QUARTER"),
  ("next quarter", "NEXT_QUARTER"), ("this year", "THIS_YEAR"), ("last year", "LAST_YEAR"),
  ("next year", "NEXT_YEAR")]

def stopwords : List String := [
  "a", "an", "the", "and", "or", "of", "in", "on", "at", "to", "for", "with", "from", "by",
  "show", "me", "get", "all", "find", "list", "that", "have", "what", "is", "are", "was", "were",
  "their", "which", "who", "my"]

def coreFields : List String := ["Id", "Name", "CreatedDate", "SystemModstamp"]

def aggregates : List String := ["count", "sum", "avg", "min", "max", "count_distinct"]

def transparentCalls : List String := ["tolabel", "convertcurrency", "format"]

def keywords : List String := [
  "SELECT", "FROM", "WHERE", "AND", "OR", "NOT", "IN", "LIKE", "NULL", "TRUE", "FALSE", "ORDER",
  "BY", "ASC", "DESC", "LIMIT", "OFFSET", "GROUP", "HAVING", "AS", "NULLS", "FIRST", "LAST",
  "COUNT", "SUM", "AVG", "MIN", "MAX", "COUNT_DISTINCT", "CALENDAR_MONTH", "CALENDAR_QUARTER",
  "CALENDAR_YEAR", "DAY_IN_MONTH", "DAY_IN_WEEK", "DAY_IN_YEAR", "DAY_ONLY", "FISCAL_MONTH",
  "FISCAL_QUARTER", "FISCAL_YEAR", "HOUR_IN_DAY", "WEEK_IN_MONTH", "WEEK_IN_YEAR", "INCLUDES",
  "EXCLUDES", "TYPEOF", "WHEN", "THEN", "ELSE", "END", "WITH", "DATA", "CATEGORY", "ABOVE",
  "BELOW", "AT", "ROLLUP", "CUBE", "FOR", "VIEW", "REFERENCE", "UPDATE", "TRACKING", "VIEWSTAT",
  "USING", "SCOPE", "EVERYTHING", "DELEGATED", "MINE", "MY_TEAM_TERRITORY", "MY_TERRITORY",
  "TEAM", "FORMAT", "TOLABEL", "CONVERTCURRENCY", "CONVERTTZ", "DISTANCE", "GEOLOCATION"]

def isKeyword (word : String) : Bool :=
  keywords.contains (upper word)

def toolingObjects : List String := [
  "EntityDefinition", "FieldDefinition", "EntityParticle", "Publisher", "RelationshipInfo",
  "SearchLayout", "StandardAction", "UserEntityAccess", "UserFieldAccess"]

def idRelationships : List (String × String) := [
  ("ownerid", "Owner"), ("contactid", "Contact"), ("accountid", "Account"),
  ("createdbyid", "CreatedBy"), ("lastmodifiedbyid", "LastModifiedBy"), ("userid", "User"),
  ("parentid", "Parent"), ("whatid", "What"), ("whoid", "Who")]

/-- An object that joins two others: the one it filters, and its field that points there. -/
structure Junction where
  object : String
  parent : String
  link : String
  deriving Repr, DecidableEq

def junctions : List Junction := [
  ⟨"OpportunityTeamMember", "Opportunity", "OpportunityId"⟩,
  ⟨"OpportunityContactRole", "Opportunity", "OpportunityId"⟩,
  ⟨"AccountTeamMember", "Account", "AccountId"⟩, ⟨"CaseTeamMember", "Case", "ParentId"⟩,
  ⟨"AccountContactRelation", "Account", "AccountId"⟩]

def phrasesForJunctions : List (Pattern × String) := [
  (row [edge, anyOf [anyCase "working on", seq (anyCase "collaborat") (many isWord),
      anyCase "assigned to", anyCase "involved in", anyCase "team member",
      anyCase "opportunity team", anyCase "deal team"], edge],
    "OpportunityTeamMember"),
  (row [edge, anyOf [seq (anyCase "contact role") (maybe (anyCase "s")),
      row [anyCase "contact", maybe (anyCase "s"), anyCase " on ", maybe (anyCase "the "),
        anyCase "deal", maybe (anyCase "s")]], edge],
    "OpportunityContactRole"),
  (row [edge, anyCase "account team", edge], "AccountTeamMember"),
  (row [edge, anyOf [anyCase "case team", anyCase "working the case"], edge], "CaseTeamMember")]

def junctionsIn (request : String) : List String :=
  (phrasesForJunctions.filter fun (phrase, _) => phrase.isIn request).map (·.2)

def categoryTrust : List (String × Float) := [
  ("business_core", 1.0), ("business_extended", 0.9), ("system", 0.3), ("system_derived", 0.3),
  ("managed_package", 0.7), ("custom_metadata", 0.4), ("platform_event", 0.2),
  ("external_object", 0.6), ("big_object", 0.6)]

def defaultTrust : Float :=
  0.8

def trustIn (category : Option String) : Float :=
  (categoryTrust.lookup (category.getD "")).getD defaultTrust

def searchFields : List (String × List String) := [
  ("Account", ["Industry", "Type"]),
  ("Contact", ["Email", "Title"]),
  ("Lead", ["Company", "Status"]),
  ("Opportunity", ["StageName", "Amount"]),
  ("Case", ["Subject", "Status"]),
  ("User", ["Email", "IsActive"])]

def searchTargets : List String := ["Account", "Contact", "Lead", "Opportunity"]

end Soql.Vocabulary
