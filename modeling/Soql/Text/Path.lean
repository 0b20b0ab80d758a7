import Soql.Text.Cut
import Soql.Text.Template
import Soql.Text.Casing

namespace Soql.Text

def dottedRest (s : List Char) : List Char × List Char :=
  match s with
  | '.' :: c :: rest =>
    if isIdentFirst c then
      have := (List.dropWhile_sublist isIdentRest (l := rest)).length_le
      let (more, after) := dottedRest (rest.dropWhile isIdentRest)
      ('.' :: c :: rest.takeWhile isIdentRest ++ more, after)
    else ([], s)
  | _ => ([], s)
termination_by s.length
decreasing_by
  simp only [List.length_cons]
  omega

/-- What follows a dotted identifier is no longer than what it is read from. -/
theorem length_dottedRest_le (s : List Char) : (dottedRest s).2.length ≤ s.length := by
  fun_induction dottedRest s with
  | case1 c rest _ shorter more after found ih =>
    rw [found] at ih
    simp only [List.length_cons]
    simp only at ih
    omega
  | case2 => simp
  | case3 => simp

def dotted (s : List Char) : Option (List Char × List Char) :=
  match s with
  | c :: rest =>
    if isIdentFirst c then
      let (more, after) := dottedRest (rest.dropWhile isIdentRest)
      some (c :: rest.takeWhile isIdentRest ++ more, after)
    else none
  | [] => none

/-- What follows a dotted identifier is shorter than what it is read from. -/
theorem length_dotted_lt {s path after : List Char} (h : dotted s = some (path, after)) :
    after.length < s.length := by
  cases s with
  | nil => simp [dotted] at h
  | cons c rest =>
    simp only [dotted] at h
    split at h
    · cases h
      have := length_dottedRest_le (rest.dropWhile isIdentRest)
      have := (List.dropWhile_sublist isIdentRest (l := rest)).length_le
      simp
      omega
    · simp at h

/-- What follows the first character that is not of a kind is shorter than the whole. -/
theorem length_lt_of_dropWhile {p : Char → Bool} {s after : List Char} {c : Char}
    (h : s.dropWhile p = c :: after) : after.length < s.length := by
  have shorter := (List.dropWhile_sublist p (l := s)).length_le
  rw [h, List.length_cons] at shorter
  exact shorter

/-- The dotted identifiers of a text, without those that a bracket makes the name of a call. -/
def dottedPaths (s : List Char) : List (List Char) :=
  match s with
  | [] => []
  | c :: rest =>
    match found : dotted (c :: rest) with
    | some (path, after) =>
      have := length_dotted_lt found
      match bracket : after.dropWhile isBlank with
      | '(' :: inside =>
        have := Nat.lt_trans (length_lt_of_dropWhile bracket) this
        dottedPaths inside
      | _ => path :: dottedPaths after
    | none => dottedPaths rest
termination_by s.length
decreasing_by
  · assumption
  · assumption
  · exact Nat.lt_succ_self _

def joinsPath (c : Char) : Bool :=
  isWord c || c == '.'

def beginsFolded : List Char → List Char → Bool
  | [], _ => true
  | _ :: _, [] => false
  | a :: as, b :: bs => sameFolded a b && beginsFolded as bs

/-- A path stands at the start of a text, whole and ignoring case, where `free` tells that nothing
before the text joins it. -/
def pathStands (path : List Char) (free : Bool) (s : List Char) : Bool :=
  free && beginsFolded path s && match s.drop path.length with
    | [] => true
    | c :: _ => !joinsPath c

/-- Exchanges a path, wherever it stands whole, for what is written in place of the text found there,
ignoring case; the counter is the number of characters that the last exchange still covers. -/
def renameFrom (path : List Char) (new : List Char → List Char) : Nat → Bool → List Char → List Char
  | covered, free, [] => if covered == 0 && pathStands path free [] then new [] else []
  | covered + 1, _, c :: rest => renameFrom path new covered (!joinsPath c) rest
  | 0, free, c :: rest =>
    if pathStands path free (c :: rest) then
      match path with
      | [] => new [] ++ c :: renameFrom path new 0 (!joinsPath c) rest
      | _ :: others =>
        new ((c :: rest).take (others.length + 1)) ++ renameFrom path new others.length (!joinsPath c) rest
    else c :: renameFrom path new 0 (!joinsPath c) rest

/-- Exchanges a path wherever it stands whole, ignoring case. The new path is a template; one that cannot
be read leaves the text as it is. -/
def renamePath (path new expr : String) : String :=
  match Template.read new.toList with
  | .ok template => .ofList (renameFrom path.toList template.fill 0 true expr.toList)
  | .error _ => expr

def segments (path : String) : List String :=
  splitAt '.' path

def afterFirstPoint (path : String) : String :=
  joined "." ((segments path).drop 1)

def lastSegment (path : String) : String :=
  (segments path).getLastD ""

end Soql.Text
