namespace Soql.Text

/-- The text has the form of a record id: fifteen ASCII letters and digits, or eighteen. A line end
after it does not count. -/
def hasIdForm (s : List Char) : Bool :=
  let s := if s.getLast? == some '\n' then s.dropLast else s
  (s.length == 15 || s.length == 18) && s.all Char.isAlphanum

/-- A literal passes for a record id: it starts like the ids of the common objects, or it has the form
of an id and a digit among its first three characters. -/
def resemblesId (literal : String) : Bool :=
  match literal.toList with
  | '0' :: '0' :: c :: rest =>
    ['1', '3', '5', '6'].contains c || hasIdForm ('0' :: '0' :: c :: rest)
  | s => hasIdForm s && (s.take 3).any Char.isDigit

end Soql.Text
