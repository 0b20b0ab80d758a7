import Soql.Text.Shown

namespace Soql

inductive ParseError where
  | emptyQuery
  | unexpectedCharacter (c : Char) (position : Nat)
  | unexpectedEnd
  | expectedWord (word found : String)
  | expectedMark (mark found : String)
  | expectedName (what found : String)
  | expectedField (found : String)
  | expectedCommaOrFrom (found : String)
  | expectedComma (found : String)
  | expectedCount (clause found : String)
  | expectedOperator (field found : String)
  | expectedValue (found : String)
  | unquotedLiteral (found : String)
  | trailing (found : String)
  | setOperator (word : String)
  | dottedObject (name : String)
  | withClause
  | groupingSets
  | forClause
  | emptyHaving
  | nullsWithoutPlace
  | branchless (relationship : String)
  | childTooDeep
  | semiJoinTooDeep
  | queryAsCondition
  | existsCondition
  | nullTest
  /-- a count has more digits than are read -/
  | countTooLong
  deriving DecidableEq, Repr, Inhabited

def ParseError.message : ParseError → String
  | emptyQuery => "empty query"
  | unexpectedCharacter c position =>
    "unexpected character " ++ Text.shown c.toString ++ " at position " ++ toString position
  | unexpectedEnd => "unexpected end of query"
  | expectedWord word found => "expected " ++ word ++ " but found '" ++ found ++ "'"
  | expectedMark mark found => "expected '" ++ mark ++ "' but found '" ++ found ++ "'"
  | expectedName what found => "expected " ++ what ++ " but found '" ++ found ++ "'"
  | expectedField found => "expected a field but found '" ++ found ++ "'"
  | expectedCommaOrFrom found => "expected ',' or FROM but found '" ++ found ++ "'"
  | expectedComma found => "expected ',' before '" ++ found ++ "'"
  | expectedCount clause found =>
    clause ++ " expects a non-negative integer but found '" ++ found ++ "'"
  | expectedOperator field found =>
    "expected an operator after '" ++ field ++ "' but found '" ++ found ++ "'"
  | expectedValue found => "expected a value but found '" ++ found ++ "'"
  | unquotedLiteral found =>
    "unquoted literal '" ++ found ++ "'; string values must be in single quotes"
  | trailing found => "unexpected token '" ++ found ++ "' after end of query"
  | setOperator word => word ++ " is not supported in SOQL"
  | dottedObject name => "invalid object name '" ++ name ++ "'"
  | withClause => "WITH clauses are not supported"
  | groupingSets => "GROUP BY ROLLUP/CUBE is not supported"
  | forClause => "FOR VIEW/REFERENCE/UPDATE is not supported"
  | emptyHaving => "empty HAVING clause"
  | nullsWithoutPlace => "NULLS must be followed by FIRST or LAST"
  | branchless relationship => "TYPEOF " ++ relationship ++ " needs at least one WHEN branch"
  | childTooDeep => "sub-queries can only be nested one level deep"
  | semiJoinTooDeep => "semi-joins cannot be nested inside other sub-queries"
  | queryAsCondition =>
    "sub-queries cannot be used as boolean conditions; use Id IN (SELECT ...)"
  | existsCondition => "EXISTS is not supported; use Id IN (SELECT ...)"
  | nullTest =>
    "IS NULL / IS NOT EMPTY are not supported; compare with = null or use a semi-join"
  | countTooLong => "a count has too many digits"

end Soql
