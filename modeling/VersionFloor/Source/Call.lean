import VersionFloor.Source.Region
import VersionFloor.Source.Site
import VersionFloor.Text.Split

/-!
# Source: calls

A site stands for a free call, for a call of a function that belongs to a class, or for the
construction of an object; declarations and control words stand for nothing.  `calls` gives each
call once, in order.
-/

namespace VersionFloor.Source

open Text

inductive Call where
  | free (name : String)
  | method (owner name : String)
  | construction (owner : String)
  deriving DecidableEq, Repr

namespace Call

def owner? : Call → Option String
  | .free _ => none
  | .method owner _ => some owner
  | .construction owner => some owner

def name? : Call → Option String
  | .free name => some name
  | .method _ name => some name
  | .construction _ => none

/-- absent goes first -/
def compareParts : Option String → Option String → Ordering
  | none, none => .eq
  | none, some _ => .lt
  | some _, none => .gt
  | some a, some b => compare a b

/-- by owner, then by name -/
def order (a b : Call) : Ordering :=
  (compareParts a.owner? b.owner?).then (compareParts a.name? b.name?)

end Call

/-! ### from sites to calls -/

/-- words that stand before parentheses but name no function -/
def controlWords : List String :=
  ["if", "elseif", "while", "for", "foreach", "switch", "match", "catch", "return", "and", "or",
    "xor", "fn"]

/-- owners that mean the class around the call -/
def selfWords : List String := ["self", "parent", "static"]

def isSelf (s : List Char) : Bool := selfWords.any (sameAscii · (String.ofList s))

def isControl (s : List Char) : Bool := controlWords.any (sameAscii · (String.ofList s))

def colons : List Char := [':', ':']

def hasColons (s : List Char) : Bool := (splitFirst colons s).isSome

def constructionOf? (name : List Char) : Option Call :=
  let owner := trimBy (· == ':') name
  if owner.isEmpty || isSelf owner then none else some (.construction (String.ofList owner))

/-- a call of a name without a keyword -/
def plainCallOf? (name : List Char) : Option Call :=
  match splitFirst colons name with
  | some (owner, name) =>
    if owner.isEmpty || name.isEmpty || hasColons name || isSelf owner then none
    else some (.method (String.ofList owner) (String.ofList name))
  | none =>
    if name.isEmpty || name.contains ':' || isSelf name || isControl name then none
    else some (.free (String.ofList name))

/-- the namespace in front of the name does not count -/
def Site.call? (s : Site) : Option Call :=
  match s.keyword with
  | some .function => none
  | some .new => constructionOf? (afterLast '\\' s.name)
  | none => plainCallOf? (afterLast '\\' s.name)

/-- the calls of all regions, as they stand -/
def callsAsWritten (s : List Char) : List Call :=
  (regions s).flatMap fun r => (sites none r).filterMap Site.call?

/-- each call once, in order -/
def calls (s : List Char) : List Call :=
  (callsAsWritten s).eraseDups.mergeSort fun a b => a.order b != .gt

end VersionFloor.Source
