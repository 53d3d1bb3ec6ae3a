import VersionFloor.Text.Ranges
import VersionFloor.Text.WordTable

/-!
# Text: word characters

They may stand on both sides of a place that is no word boundary.
-/

namespace VersionFloor.Text

def isAsciiLetter (c : Char) : Bool :=
  ('a' ≤ c && c ≤ 'z') || ('A' ≤ c && c ≤ 'Z')

def isAsciiDigit (c : Char) : Bool := '0' ≤ c && c ≤ '9'

def isAsciiWord (c : Char) : Bool := isAsciiLetter c || isAsciiDigit c || c == '_'

def isWord (c : Char) : Bool :=
  if c.toNat < 0x80 then isAsciiWord c else inRanges c.toNat wordRanges

end VersionFloor.Text
