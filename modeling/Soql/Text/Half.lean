namespace Soql.Text

def halfDistance : Nat := 0x102000

/-- Half of a character that takes two units, where it stands on its own. It is none of the characters of a
text, so one of the last private ones stands for it. -/
def half (unit : Nat) : Char :=
  .ofNat (unit + halfDistance)

def isHalf (c : Char) : Bool :=
  0xd800 + halfDistance ≤ c.toNat

def codePoint (c : Char) : Nat :=
  if isHalf c then c.toNat - halfDistance else c.toNat

def isWhole (s : String) : Bool :=
  !s.toList.any isHalf

end Soql.Text
