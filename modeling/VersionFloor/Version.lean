import VersionFloor.Text.Blank
import VersionFloor.Text.Split
import VersionFloor.Text.Word

/-!
# Versions: a text and its numbers

A version is kept as it is written; it counts by the numbers between its points, and a missing
number counts as zero.
-/

namespace VersionFloor

open Text

/-- a version text, neither blank nor with blanks around it -/
structure Version where
  text : String
  written : nonBlank? text = some text
  deriving DecidableEq

namespace Version

/-- a blank text is no version -/
def parse? (s : String) : Option Version :=
  match h : nonBlank? s with
  | none => none
  | some t => some ⟨t, nonBlank?_of_nonBlank? h⟩

def digitsValue (ds : List Char) : Nat := ds.foldl (fun n c => n * 10 + (c.toNat - 48)) 0

/-- the least number that 64 bits do not hold -/
def segmentLimit : Nat := 0x10000000000000000

/-- the digits a segment starts with; a number that does not fit 64 bits counts as zero -/
def segment (s : List Char) : Nat :=
  let n := digitsValue ((trimBy isBlank s).takeWhile isAsciiDigit)
  if n < segmentLimit then n else 0

def segments (v : Version) : List Nat := (splitAll '.' v.text.toList).map segment

/-- segment by segment, the shorter list continued by zeros -/
def compareSegments : List Nat → List Nat → Ordering
  | [], [] => .eq
  | a :: as, [] => (compare a 0).then (compareSegments as [])
  | [], b :: bs => (compare 0 b).then (compareSegments [] bs)
  | a :: as, b :: bs => (compare a b).then (compareSegments as bs)

/-- numerically greater, whatever the spelling -/
def exceeds (v w : Version) : Bool := compareSegments v.segments w.segments == .gt

/-- by number, then by spelling -/
def order (v w : Version) : Ordering :=
  (compareSegments v.segments w.segments).then (compare v.text w.text)

instance : Ord Version := ⟨order⟩

def larger (v w : Version) : Version := if order v w = .gt then v else w

def larger? : Option Version → Option Version → Option Version
  | some v, some w => some (larger v w)
  | v, none => v
  | none, w => w

/-- ascending, equal ones in the order given -/
def sorted (vs : List Version) : List Version := vs.mergeSort fun v w => order v w != .gt

end Version

end VersionFloor
