import Soql.Decimal.Reading

namespace Soql.Settings

/-- A whole number given as a setting; a text that is none counts as not given. -/
def wholeNumber (raw : Option String) : Option Int :=
  raw.bind Decimal.readInt

/-- A number given as a setting; a text that is none counts as not given. -/
def number (raw : Option String) : Option Float :=
  raw.bind Decimal.readFloat

end Soql.Settings
