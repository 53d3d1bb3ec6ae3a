import VersionFloor.Catalog.Symbol
import VersionFloor.Keyed
import VersionFloor.Text.Case

/-!
# Catalogs: symbols and their two indexes

A catalog has its symbols in order, and for every name and every owner, in lower case, the positions
where it stands, in ascending order.
-/

namespace VersionFloor

open Text

/-- adds a position to a key -/
def Keyed.addPosition (t : Keyed (List Nat)) (key : String) (i : Nat) : Keyed (List Nat) :=
  t.put key fun old => old.getD [] ++ [i]

structure Catalog where
  symbols : List Symbol
  byName : Keyed (List Nat)
  byOwner : Keyed (List Nat)

namespace Catalog

/-- the positions of the symbols that have a key -/
def index (key? : Symbol → Option String) (symbols : List Symbol) : Keyed (List Nat) :=
  symbols.zipIdx.foldl
    (fun t (s, i) => match key? s with
      | some key => t.addPosition (lower key) i
      | none => t)
    ∅

def ofSymbols (symbols : List Symbol) : Catalog where
  symbols
  byName := index (fun s => some s.name) symbols
  byOwner := index (·.owner) symbols

def size (c : Catalog) : Nat := c.symbols.length

def isEmpty (c : Catalog) : Bool := c.symbols.isEmpty

/-- the positions of the symbols of this name -/
def named (c : Catalog) (name : String) : List Nat := (c.byName.find? (lower name)).getD []

/-- the positions of the symbols that belong to this class -/
def ownedBy (c : Catalog) (owner : String) : List Nat := (c.byOwner.find? (lower owner)).getD []

def hasOwner (c : Catalog) (owner : String) (i : Nat) : Bool :=
  (c.symbols[i]?.bind (·.owner)).any (sameAscii · owner)

def isFree (c : Catalog) (i : Nat) : Bool := c.symbols[i]?.any (·.owner.isNone)

/-- The position of the first symbol that fits an owner and a name.  A name without an owner fits
free functions only, an owner without a name anything that belongs to it. -/
def locate? (c : Catalog) : (owner name : Option String) → Option Nat
  | some owner, some name => (c.named name).find? (c.hasOwner owner)
  | some owner, none => (c.ownedBy owner).head?
  | none, some name => (c.named name).find? c.isFree
  | none, none => none

def resolve? (c : Catalog) (owner name : Option String) : Option Symbol :=
  (c.locate? owner name).bind (c.symbols[·]?)

end Catalog

end VersionFloor
