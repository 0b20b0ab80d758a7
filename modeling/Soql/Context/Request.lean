import Soql.Context.Basic
import Soql.Text.Fence
import Soql.Text.Pattern
import Soql.Vocabulary

namespace Soql.Request

open Text Text.Pattern

structure Terms where
  entities : List String := []
  values : List String := []
  deriving DecidableEq, Repr, Inhabited

def valueWords : List String := [
  "high", "medium", "low", "critical", "urgent", "normal", "open", "closed", "new", "pending",
  "escalated", "won", "lost", "active", "inactive"]

def standIns : List String := [
  "the", "all", "my", "our", "their", "some", "any", "open", "closed", "new", "these", "those"]

def plainCapitals : List String := [
  "The", "Show", "Get", "Find", "All", "With", "From", "And", "For", "List", "How", "What", "Which",
  "Who"]

def isPlain (c : Char) : Bool :=
  c.isLower || c.isDigit || c == '_'

def plainWord (word : String) : String :=
  .ofList (word.toList.filter isPlain)

def capitalized (word : String) : String :=
  match word.toList with
  | [] => ""
  | c :: rest => .ofList (c.toUpper :: rest)

def oneOf (words : List String) : Pattern :=
  anyOf (words.map anyCase)

def salesObject (more : List Pattern) : Pattern :=
  anyOf ([seq (anyCase "deal") (maybe (anyCase "s")), seq (anyCase "account") (maybe (anyCase "s")),
    seq (anyCase "opportunit") (oneOf ["y", "ies"]), seq (anyCase "case") (maybe (anyCase "s"))] ++
    more)

def companyPhrases : List Pattern := [
  row [oneOf ["for", "from", "at"], blanks, keep word, blanks,
    salesObject [seq (anyCase "contact") (maybe (anyCase "s"))]],
  row [keep word, blanks, salesObject [], blanks, oneOf ["owned", "with", "where"]]]

def isQuote (c : Char) : Bool :=
  c == '\x22' || c == '\x27'

def quotation : Pattern :=
  let inner := fun c => !isQuote c
  row [one isQuote, keep (row [one inner, one inner, many inner]), one isQuote]

/-- The words of a text: its longest runs of word characters. -/
def wordRuns (s : String) : List (List Char) :=
  runsBetween (!isWord ·) s.toList

def isCustomName (w : List Char) : Bool :=
  w.length ≥ 4 && beginsFolded "__c".toList (w.drop (w.length - 3))

/-- A word of capitalized parts: in each a capital and then lower case letters. -/
def isCapitalized : List Char → Bool
  | [] => true
  | c :: rest => c.isUpper && partGoesOn rest
where
  /-- At least one lower case letter, then more of them or a further part. -/
  partGoesOn : List Char → Bool
    | [] => false
    | c :: rest => c.isLower && partEnds rest
  /-- Lower case letters up to a further part or the end. -/
  partEnds : List Char → Bool
    | [] => true
    | c :: rest => if c.isLower then partEnds rest else c.isUpper && partGoesOn rest

def capitals (request : String) : List String :=
  let found := ((wordRuns request).filter isCapitalized).map String.ofList
  found.filter fun w => w.length > 2 && !plainCapitals.contains w

def mentionedValues (request : String) : List String :=
  let plain := (words (lower request)).map plainWord
  (plain.filter valueWords.contains).map capitalized

def companies (request : String) : List String :=
  let found := companyPhrases.flatMap fun p => (p.findAll request).filterMap (·.kept.head?)
  found.filter fun name =>
    !standIns.contains (lower name) && !Vocabulary.stopwords.contains (lower name)

def quotations (request : String) : List String :=
  ((quotation.findAll request).filterMap (·.kept.head?)).map trimmed

def terms (request : String) : Terms :=
  let names := capitals request
  let custom := ((wordRuns request).filter isCustomName).map String.ofList
  { entities := (custom ++ names).eraseDups
    values := (mentionedValues request ++ companies request ++ quotations request ++ names).eraseDups }

def optionalWord (w : String) : Pattern :=
  maybe (seq (exactly w) blanks)

def parentFields (more : List Pattern) : Pattern :=
  anyOf ([exactly "name", exactly "id"] ++ more)

def detail : Pattern :=
  seq (exactly "detail") (maybe (exactly "s"))

def plural : Pattern :=
  keep (seq word (exactly "s"))

def parentPhrases : List Pattern := [
  row [keep word, blanks, exactly "with", blanks, optionalWord "their", keep word, blanks,
    parentFields [detail, seq (exactly "info") (maybe (exactly "rmation"))]],
  row [keep word, blanks, exactly "including", blanks, keep word, blanks, parentFields [detail]],
  row [keep word, blanks, exactly "and", blanks, optionalWord "their", keep word, blanks,
    parentFields []]]

def childPhrases : List Pattern := [
  row [keep word, blanks, exactly "that", blanks, exactly "have", blanks, plural, edge],
  row [keep word, blanks, exactly "with", blanks, optionalWord "their", optionalWord "all", plural,
    edge, notBefore (seq blanks (parentFields [detail]))],
  row [keep word, blanks, exactly "and", blanks, optionalWord "their", plural, edge,
    notBefore (seq blanks (parentFields []))],
  row [keep word, blanks, anyOf [exactly "including", exactly "showing"], blanks,
    optionalWord "all", optionalWord "related", plural, edge]]

def objectWord (w : String) : String :=
  capitalized (plainWord (lower w))

def intentOf (kind : IntentKind) (found : Found) : Option Intent :=
  match found.kept with
  | [source, target] => some ⟨kind, objectWord source, objectWord target, found.text⟩
  | _ => none

/-- Intents without those of an object with itself, and without the later ones that say the same. -/
def distinctIntents : (seen : List (IntentKind × String × String)) → List Intent → List Intent
  | _, [] => []
  | seen, i :: rest =>
    let key := (i.kind, i.source, i.target)
    if i.source == i.target || seen.contains key then distinctIntents seen rest
    else i :: distinctIntents (key :: seen) rest

def intents (request : String) : List Intent :=
  let request := lower request
  let find (kind : IntentKind) (patterns : List Pattern) : List Intent :=
    patterns.flatMap fun p => (p.findAll request).filterMap (intentOf kind)
  distinctIntents [] (find .parent parentPhrases ++ find .children childPhrases)

end Soql.Request
