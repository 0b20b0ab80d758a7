import Soql.Text.Pattern
import Soql.Validation.Message

namespace Soql.RawText

open Text Text.Pattern

def gap : Pattern :=
  many isBlank

/-- Constructs that the query language lacks, with what to use instead. They are sought in capitals. -/
def constructs : List (Pattern × String) := [
  (row [edge, exactly "IS", blanks, maybe (seq (exactly "NOT") blanks), exactly "EMPTY", edge],
    "SOQL does not support \"IS EMPTY\" / \"IS NOT EMPTY\"; use a semi-join such as Id IN (SELECT ... FROM ...)"),
  (row [edge, exactly "IS", blanks, maybe (seq (exactly "NOT") blanks), exactly "NULL", edge],
    "SOQL does not support \"IS NULL\"; compare with \"= null\" or \"!= null\""),
  (row [edge, exactly "EXISTS", gap, exactly "("],
    "SOQL does not support \"EXISTS\"; use Id IN (SELECT ... FROM ...)"),
  (row [edge, anyOf [exactly "AND", exactly "OR", exactly "WHERE"], gap, exactly "(", gap,
      exactly "SELECT", edge],
    "Sub-queries cannot be used as boolean conditions; use Id IN (SELECT ... FROM ...)"),
  (row [edge, anyOf [exactly "UNION", exactly "EXCEPT", exactly "INTERSECT"], edge],
    "SOQL does not support UNION, EXCEPT or INTERSECT; run separate queries"),
  (row [edge, maybe (anyOf [exactly "INNER", exactly "LEFT", exactly "RIGHT", exactly "OUTER",
      exactly "CROSS"]), gap, exactly "JOIN", edge],
    "SOQL has no JOIN; use relationship paths (Account.Name) or sub-queries"),
  (row [notAfter fun c => isWord c || c == '\x27', exactly "=", gap, exactly ":", one isIdentFirst],
    "Bind variables are not allowed; inline the literal value")]

def having : Pattern :=
  row [edge, exactly "HAVING", edge]

def grouping : Pattern :=
  row [edge, exactly "GROUP", blanks, exactly "BY", edge]

def countAll : Pattern :=
  row [edge, exactly "COUNT", gap, exactly "(", gap, exactly "*", gap, exactly ")"]

def check (text : String) : List Message :=
  let text := upper text
  let found := (constructs.filter fun (construct, _) => construct.isIn text).map (·.2)
  let texts := found ++
    (if having.isIn text && !grouping.isIn text then ["HAVING requires a GROUP BY clause"] else []) ++
    (if countAll.isIn text then ["COUNT(*) is not valid SOQL; use COUNT() or COUNT(Id)"] else [])
  texts.map fun message => .error "syntax" message none

end Soql.RawText
