/-!
# Text: digits

The radix is 36 at most, and letters count in either case.
-/

namespace VersionFloor.Text

def digitOf? (radix : Nat) (c : Char) : Option Nat :=
  let n :=
    if '0' ≤ c ∧ c ≤ '9' then c.toNat - 48
    else if 'a' ≤ c ∧ c ≤ 'z' then c.toNat - 87
    else if 'A' ≤ c ∧ c ≤ 'Z' then c.toNat - 55
    else radix
  if n < radix then some n else none

/-- the number that digits stand for; there must be one at least -/
def digitsOf? (radix : Nat) (ds : List Char) : Option Nat :=
  if ds = [] then none
  else ds.foldlM (fun n c => (digitOf? radix c).map (n * radix + ·)) 0

end VersionFloor.Text
