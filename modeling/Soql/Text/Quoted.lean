import Soql.Text.Cut

namespace Soql.Text

/-- The characters of a literal after its opening quote, and what follows its closing one. A
backslash takes the next character with it, but not across the end of a line. -/
def literalBody (quote : Char) : List Char → Option (List Char × List Char)
  | '\\' :: c :: rest =>
    if c == '\n' then none
    else (literalBody quote rest).map fun (body, after) => ('\\' :: c :: body, after)
  | c :: rest =>
    if c == quote then some ([], rest)
    else if c == '\\' then none
    else (literalBody quote rest).map fun (body, after) => (c :: body, after)
  | [] => none

/-- A literal is its body, the closing quote and what follows. -/
theorem literalBody_append {quote : Char} {s body after : List Char}
    (h : literalBody quote s = some (body, after)) : body ++ quote :: after = s := by
  fun_induction literalBody quote s generalizing body after with
  | case1 => simp at h
  | case2 c rest _ ih =>
    obtain ⟨⟨body', after'⟩, found, eq⟩ := Option.map_eq_some_iff.1 h
    cases eq
    simp [ih found]
  | case3 c rest _ eq =>
    cases h
    simp_all
  | case4 => simp at h
  | case5 c rest _ _ _ ih =>
    obtain ⟨⟨body', after'⟩, found, eq⟩ := Option.map_eq_some_iff.1 h
    cases eq
    simp [ih found]
  | case6 => simp at h

/-- What follows a literal is shorter than what its body began with. -/
theorem length_after_lt {quote : Char} {s body after : List Char}
    (h : literalBody quote s = some (body, after)) : after.length < s.length := by
  rw [← literalBody_append h]
  simp
  omega

def withoutLiterals (s : List Char) : List Char :=
  match s with
  | [] => []
  | c :: rest =>
    if c == '\x27' || c == '\x22' then
      match found : literalBody c rest with
      | some (_, after) =>
        have := length_after_lt found
        ' ' :: withoutLiterals after
      | none => c :: withoutLiterals rest
    else c :: withoutLiterals rest
termination_by s.length

def literalBodies (s : List Char) : List (List Char) :=
  match s with
  | [] => []
  | c :: rest =>
    if c == '\x27' then
      match found : literalBody c rest with
      | some (body, after) =>
        have := length_after_lt found
        body :: literalBodies after
      | none => literalBodies rest
    else literalBodies rest
termination_by s.length

/-- What the body of a literal stands for: an escaped quote is a quote, and then two backslashes are
one. -/
def unescape (body : List Char) : List Char :=
  replaceAll ['\\', '\\'] ['\\'] (replaceAll ['\\', '\x27'] ['\x27'] body)

def literalsOf (s : String) : List String :=
  (literalBodies s.toList).map fun body => .ofList (unescape body)

/-- A text as a literal: each quote is escaped, and nothing else. -/
def asLiteral (s : String) : List Char :=
  '\x27' :: replaceAll ['\x27'] ['\\', '\x27'] s.toList ++ ['\x27']

def unquoted (s : String) : String :=
  .ofList (withoutLiterals s.toList)

end Soql.Text
