namespace Soql.Text

/-- The characters that separate words: the ASCII blanks, the four information separators, and the
spaces and line ends of Unicode. -/
def isBlank (c : Char) : Bool :=
  let n := c.toNat
  (9 ≤ n && n ≤ 13) || (28 ≤ n && n ≤ 32) || n == 0x85 || n == 0xa0 || n == 0x1680 ||
    (0x2000 ≤ n && n ≤ 0x200a) || n == 0x2028 || n == 0x2029 || n == 0x202f || n == 0x205f ||
    n == 0x3000

def dropEnd (p : Char → Bool) (s : List Char) : List Char :=
  (s.reverse.dropWhile p).reverse

def dropEnds (p : Char → Bool) (s : List Char) : List Char :=
  dropEnd p (s.dropWhile p)

def trim (s : List Char) : List Char :=
  dropEnds isBlank s

def trimmed (s : String) : String :=
  .ofList (trim s.toList)

def pieces (p : Char → Bool) : List Char → List (List Char)
  | [] => [[]]
  | c :: rest =>
    if p c then [] :: pieces p rest
    else match pieces p rest with
      | [] => [[c]]
      | first :: others => (c :: first) :: others

def runsBetween (p : Char → Bool) (s : List Char) : List (List Char) :=
  (pieces p s).filter (!·.isEmpty)

/-- The words of a text: its longest runs without a blank. -/
def words (s : String) : List String :=
  (runsBetween isBlank s.toList).map .ofList

def squeeze : List Char → List Char
  | [] => []
  | c :: rest =>
    if isBlank c then
      match squeeze rest with
      | ' ' :: others => ' ' :: others
      | others => ' ' :: others
    else c :: squeeze rest

/-- A statement as it is read: no blanks at the ends, and no semicolons at the end. -/
def bareStatement (s : String) : String :=
  .ofList (trim (dropEnd (· == ';') (trim s.toList)))

end Soql.Text
