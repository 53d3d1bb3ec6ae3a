/-!
# Text: ranges of code points

A code point is looked for in an ascending list of closed ranges.
-/

namespace VersionFloor.Text

/-- stops at the first range that starts beyond `n` -/
def inRanges (n : Nat) : List (Nat × Nat) → Bool
  | [] => false
  | (lo, hi) :: rest => if n < lo then false else n ≤ hi || inRanges n rest

end VersionFloor.Text
