import VersionFloor.Data.Xml.Token
import VersionFloor.Text.Digits

/-!
# XML: the tree of a text

The text is read as far as it is well formed.  A `fault` stands where the text goes wrong; nothing
follows it, neither in its element nor in the elements around it.
-/

namespace VersionFloor.Data.Xml

open Text

inductive Node where
  | element (name attributes : List Char) (children : List Node)
  | text (raw : List Char)
  | verbatim (s : List Char)
  | fault
  deriving Repr

/-- an open element and what it holds so far, the last node first -/
structure Frame where
  name : List Char
  attributes : List Char
  children : List Node

def Frame.close (f : Frame) : Node := .element f.name f.attributes f.children.reverse

def Frame.add (n : Node) (f : Frame) : Frame := { f with children := n :: f.children }

/-- closes every open element behind a fault -/
def closeAll : Node → List Frame → Node
  | n, [] => n
  | n, f :: fs => closeAll (f.add n).close fs

/-- the first element, or a fault when text comes first; `open_` has the innermost frame first -/
def build : List Frame → List Token → Node
  | open_, [] => closeAll .fault open_
  | open_, .fault :: _ => closeAll .fault open_
  | open_, .opening name attributes :: ts => build (⟨name, attributes, []⟩ :: open_) ts
  | [], .text raw :: ts => if raw.all isSpace then build [] ts else .fault
  | [], _ :: _ => .fault
  | f :: fs, .text raw :: ts => build (f.add (.text raw) :: fs) ts
  | f :: fs, .verbatim s :: ts => build (f.add (.verbatim s) :: fs) ts
  | f :: fs, .closing name :: ts =>
    if name = f.name then
      match fs with
      | [] => f.close
      | g :: gs => build (g.add f.close :: gs) ts
    else closeAll .fault (f :: fs)

def root (s : String) : Node := build [] (tokens s.toList)

/-! ### references -/

def charOf? (n : Nat) : Option Char :=
  if n = 0 ∨ ¬ n.isValidChar then none else some (Char.ofNat n)

/-- the character that a reference between `&` and `;` stands for -/
def reference? (name : List Char) : Option Char :=
  match name with
  | '#' :: 'x' :: ds => (digitsOf? 16 ds).bind charOf?
  | '#' :: ds => (digitsOf? 10 ds).bind charOf?
  | name =>
    match String.ofList name with
    | "lt" => some '<'
    | "gt" => some '>'
    | "amp" => some '&'
    | "apos" => some '\''
    | "quot" => some '"'
    | _ => none

/-- resolves the references; `name` holds the one being read, its last character first -/
def resolveFrom (name : Option (List Char)) : List Char → Option (List Char)
  | [] => if name.isSome then none else some []
  | c :: rest =>
    match name with
    | none => if c = '&' then resolveFrom (some []) rest else (resolveFrom none rest).map (c :: ·)
    | some n =>
      if c = ';' then do
        let r ← reference? n.reverse
        return r :: (← resolveFrom none rest)
      else if c = '&' then none
      else resolveFrom (some (c :: n)) rest

def resolve (raw : List Char) : Option (List Char) := resolveFrom none raw

/-! ### parts of an element -/

/-- a name without the part before its first colon -/
def localName (name : List Char) : List Char :=
  match splitFirst [':'] name with
  | some (_, l) => l
  | none => name

mutual

def hasFault : Node → Bool
  | .element _ _ children => anyFault children
  | .fault => true
  | _ => false

def anyFault : List Node → Bool
  | [] => false
  | n :: ns => hasFault n || anyFault ns

end

/-- the text of nodes that are all text -/
def textOf? : List Node → Option (List Char)
  | [] => some []
  | .text raw :: ns => do return (← resolve raw) ++ (← textOf? ns)
  | .verbatim s :: ns => (textOf? ns).map (s ++ ·)
  | _ :: _ => none

end VersionFloor.Data.Xml
