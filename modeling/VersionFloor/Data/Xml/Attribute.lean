import VersionFloor.Data.Xml.Token

/-!
# XML: attributes of an element

Among them is the mark by which an element says that it is absent although it is there: the
attribute `nil` of the schema instance namespace, whatever prefix stands for it.
-/

namespace VersionFloor.Data.Xml

open Text

structure Attribute where
  name : List Char
  /-- as it stands between the quotes -/
  value : List Char
  deriving DecidableEq, Repr

namespace Attribute

def endsName (c : Char) : Bool := c == '=' || isSpace c

/-- a value in quotes behind an equals sign, and what follows it -/
def takeValue (s : List Char) : Option (List Char × List Char) :=
  match s.dropWhile isSpace with
  | '=' :: s =>
    match s.dropWhile isSpace with
    | q :: s => if q = '"' ∨ q = '\'' then splitFirst [q] s else none
    | [] => none
  | _ => none

/-- the attributes before the first one that is broken, and whether all are whole -/
def readFrom : (fuel : Nat) → List Char → List Attribute × Bool
  | 0, _ => ([], false)
  | fuel + 1, s =>
    match s.dropWhile isSpace with
    | [] => ([], true)
    | c :: s =>
      match takeValue (s.dropWhile (!endsName ·)) with
      | none => ([], false)
      | some (value, rest) =>
        let (more, whole) := readFrom fuel rest
        (⟨c :: s.takeWhile (!endsName ·), value⟩ :: more, whole)

def read (s : List Char) : List Attribute × Bool := readFrom (s.length + 1) s

/-- every attribute has a value in quotes, and no name comes twice -/
def wellFormed (s : List Char) : Bool :=
  let (found, whole) := read s
  whole && (found.map (·.name)).Nodup

/-! ### marks of absence -/

def instanceNamespace : List Char := "http://www.w3.org/2001/XMLSchema-instance".toList

/-- the prefixes that stand for the schema instance namespace behind an attribute -/
def declare (prefixes : List (List Char)) (a : Attribute) : List (List Char) :=
  match splitFirst [':'] a.name with
  | some (x, p) =>
    if x = "xmlns".toList then
      if a.value = instanceNamespace then p :: prefixes else prefixes.filter (· ≠ p)
    else prefixes
  | none => prefixes

def isNil (prefixes : List (List Char)) (a : Attribute) : Bool :=
  match splitFirst [':'] a.name with
  | some (p, n) =>
    prefixes.contains p && n == "nil".toList &&
      (a.value == "true".toList || a.value == "1".toList)
  | none => false

end Attribute

/-- where an element stands -/
structure Scope where
  /-- the prefixes of the schema instance namespace -/
  prefixes : List (List Char)
  /-- whether the element around is marked as absent -/
  isNil : Bool

namespace Scope

def outermost : Scope := ⟨[], false⟩

/-- the scope inside an element with these attributes -/
def enter (s : Scope) (attributes : List Char) : Scope :=
  let found := (Attribute.read attributes).1
  let prefixes := found.foldl Attribute.declare s.prefixes
  ⟨prefixes, found.any (Attribute.isNil prefixes)⟩

/-- whether an element with these attributes counts as absent -/
def hides (s : Scope) (attributes : List Char) : Bool := s.isNil || (s.enter attributes).isNil

end Scope

end VersionFloor.Data.Xml
