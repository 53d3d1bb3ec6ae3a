import VersionFloor.Glob.Basic
import VersionFloor.Text.Utf8

/-!
# Globs: matching a path

A pattern has to take the whole of a path.  Paths are matched by their bytes: a part takes a start
of the text and leaves one of its ends.
-/

namespace VersionFloor.Glob

open Text

def charBytes (c : Char) : Bytes := encode c.toString

/-- the bytes between two characters, as far as their outer bytes tell -/
def rangeHolds (b : UInt8) (low high : Char) : Bool :=
  if low = high then (charBytes low).contains b
  else
    let l := charBytes low
    let h := charBytes high
    l.dropLast.contains b || (l.getLastD 0 ≤ b && b ≤ h.headD 0) || (h.drop 1).contains b

def tails : Bytes → List Bytes
  | [] => [[]]
  | b :: s => (b :: s) :: tails s

def afterSlash : Bytes → List Bytes
  | 0x2F :: s => [s]
  | _ => []

/-- one of each length; all of them are ends of one text -/
def distinct (ss : List Bytes) : List Bytes :=
  ss.foldr (fun s acc => if acc.any (·.length == s.length) then acc else s :: acc) []

mutual

/-- whether a part can match the empty text only, because every alternative is left empty -/
def isVoid : Glob → Bool
  | .choice alternatives => areVoid alternatives
  | .seq parts => areVoid parts
  | _ => false

def areVoid : List Glob → Bool
  | [] => true
  | g :: gs => isVoid g && areVoid gs

end

mutual

/-- what may be left of a text when a part has matched its start -/
def rests : Glob → Bytes → List Bytes
  | .literal c, s => if (charBytes c).isPrefixOf s then [s.drop (charBytes c).length] else []
  | .any, s => if s.isEmpty then [] else [s.drop 1]
  | .star, s => tails s
  | .anyDirs, s => s :: afterSlash s ++ (tails s).flatMap afterSlash
  | .inside, s => (afterSlash s).flatMap tails
  | .between, s => afterSlash s ++ ((afterSlash s).flatMap tails).flatMap afterSlash
  | .oneOf negated ranges, s =>
    match s with
    | [] => []
    | b :: s => if (ranges.any fun r => rangeHolds b r.1 r.2) != negated then [s] else []
  | .choice alternatives, s =>
    if areVoid alternatives then [s] else restsOfSome alternatives s
  | .seq parts, s => restsOfAll parts [s]

def restsOfAll : List Glob → List Bytes → List Bytes
  | [], ss => ss
  | g :: gs, ss => restsOfAll gs (distinct (ss.flatMap (rests g)))

/-- an alternative that is left empty does not count -/
def restsOfSome : List Glob → Bytes → List Bytes
  | [], _ => []
  | g :: gs, s => (if isVoid g then [] else rests g s) ++ restsOfSome gs s

end

/-- a pattern that is only a double star matches every path -/
def isMatch (pattern : Glob) (path : String) : Bool :=
  match pattern with
  | .seq [.anyDirs] => true
  | _ => (rests pattern (encode path)).any (·.isEmpty)

end VersionFloor.Glob
