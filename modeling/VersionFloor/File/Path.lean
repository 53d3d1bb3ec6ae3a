import VersionFloor.Text.Case
import VersionFloor.Text.Quoted
import VersionFloor.Text.Split

/-!
# Files: paths and their steps

Empty steps count for nothing, and a dot only where it stands first.
-/

namespace VersionFloor

open Text

structure Path where
  text : String
  deriving DecidableEq, Repr

namespace Path

inductive Step where
  | root
  | here
  | up
  | name (s : String)
  deriving DecidableEq, Repr

/-- the texts between the slashes -/
def pieces (p : Path) : List String := (splitAll '/' p.text.toList).map String.ofList

def isAbsolute (p : Path) : Bool := p.text.toList.head? == some '/'

def stepOf? (s : String) : Option Step :=
  if s = "" ∨ s = "." then none else if s = ".." then some .up else some (.name s)

def steps (p : Path) : List Step :=
  let lead := if p.isAbsolute then [.root] else if p.pieces.head? = some "." then [.here] else []
  lead ++ p.pieces.filterMap stepOf?

def Step.rank : Step → Nat
  | .root => 0
  | .here => 1
  | .up => 2
  | .name _ => 3

def Step.order : Step → Step → Ordering
  | .name a, .name b => compare a b
  | a, b => compare a.rank b.rank

def compareSteps : List Step → List Step → Ordering
  | [], [] => .eq
  | [], _ :: _ => .lt
  | _ :: _, [] => .gt
  | a :: as, b :: bs => (a.order b).then (compareSteps as bs)

/-- two spellings of the same steps are equal in order -/
def order (p q : Path) : Ordering := compareSteps p.steps q.steps

def fileName? (p : Path) : Option String :=
  match p.steps.getLast? with
  | some (.name s) => some s
  | _ => none

/-- what follows the last point of a name; a point that stands first does not count -/
def extensionOf? (name : String) : Option String :=
  let cs := name.toList
  let ext := afterLast '.' cs
  if ext.length + 1 < cs.length then some (String.ofList ext) else none

def extension? (p : Path) : Option String := p.fileName?.bind extensionOf?

/-- the steps without the last, absent for the root and for an empty path -/
def parent? (p : Path) : Option (List Step) :=
  match p.steps.getLast? with
  | none => none
  | some .root => none
  | some _ => some p.steps.dropLast

/-- the path of `name` inside `dir` -/
def join (dir : Path) (name : String) : Path :=
  if dir.text = "" ∨ dir.text.toList.getLast? = some '/' then ⟨dir.text ++ name⟩
  else ⟨dir.text ++ "/" ++ name⟩

def quoted (p : Path) : String := Text.quoted p.text

end Path

end VersionFloor
