import VersionFloor.File.Fault
import VersionFloor.File.Path
import VersionFloor.File.Tree

/-!
# Files: a tree seen from a working directory

Where a path leads, and what listing, reading, writing and making directories do.
-/

namespace VersionFloor

open Text

structure Disk where
  root : FileTree
  /-- the names on the way from the root to the working directory -/
  cwd : List String
  faults : Faults := .none

/-- what a path is followed for -/
inductive Aim where
  /-- something that is there -/
  | lookup
  /-- something that may be new -/
  | creation
  /-- the names from the root -/
  | spelling
  deriving DecidableEq, Repr

/-- where a path leads: to a node, or to a name that is still free in a directory -/
inductive Place where
  | found (names : List String)
  | absent (dir : List String) (name : String)
  deriving DecidableEq, Repr

namespace Disk

def nameLimit : Nat := 255
def pathLimit : Nat := 4096
def linkLimit : Nat := 40

/-- the bytes of the path with these pieces, one more behind each -/
def pieceBytes (pieces : List String) : Nat :=
  pieces.foldr (fun s n => s.utf8ByteSize + 1 + n) 0

/-- the bytes of the path from the root -/
def fullBytes (names : List String) : Nat := pieceBytes ("" :: names)

/-- Follows the pieces of a path from a directory; `jump` goes on behind a link.  The path of
something new may not end in a slash, and what is spelt out may at no time be too long. -/
def followWith (root : FileTree) (aim : Aim)
    (jump : List String → List String → Except FileError Place) (dir : List String) :
    List String → Except FileError Place
  | [] => .ok (.found dir)
  | piece :: rest =>
    if piece = "" ∨ piece = "." then followWith root aim jump dir rest
    else if piece = ".." then followWith root aim jump dir.dropLast rest
    else if aim = .creation ∧ rest ≠ [] ∧ rest.all (· = "") then .error .isDirectory
    else if nameLimit < piece.utf8ByteSize ∨
        aim = .spelling ∧ pathLimit < fullBytes (dir ++ [piece]) then .error .nameTooLong
    else match root.at? (dir ++ [piece]) with
      | none => if rest = [] then .ok (.absent dir piece) else .error .notFound
      | some (.dir _) => followWith root aim jump (dir ++ [piece]) rest
      | some (.file _) => if rest = [] then .ok (.found (dir ++ [piece])) else .error .notDirectory
      | some (.link target) =>
        let t : Path := ⟨target⟩
        if target = "" then .error .notFound
        else jump (if t.isAbsolute then [] else dir) (t.pieces ++ rest)

/-- `links` bounds the number of links on the way -/
def follow (root : FileTree) (aim : Aim) : (links : Nat) → (dir pieces : List String) →
    Except FileError Place
  | 0 => followWith root aim fun _ _ => .error .tooManyLinks
  | links + 1 => followWith root aim (follow root aim links)

/-- the directory in which a path begins; an absolute path has an empty piece in front -/
def start (d : Disk) (pieces : List String) : List String :=
  if pieces.head? = some "" then [] else d.cwd

def locatePieces (d : Disk) (aim : Aim) (pieces : List String) : Except FileError Place :=
  if pieces.any (·.toList.contains '\x00') then .error .zeroByte
  else if pieces = [] ∨ pieces = [""] then .error .notFound
  else if aim ≠ .spelling ∧ pathLimit < pieceBytes pieces then .error .nameTooLong
  else follow d.root aim linkLimit (d.start pieces) pieces

def locate (d : Disk) (p : Path) : Except FileError Place := d.locatePieces .lookup p.pieces

/-- the names of what is found -/
def namesAt : Place → Except FileError (List String)
  | .found names => .ok names
  | .absent _ _ => .error .notFound

/-- the names from the root to the node that a path leads to -/
def find (d : Disk) (p : Path) : Except FileError (List String) := (d.locate p).bind namesAt

/-- These names spelt out one after the other.  How long the path itself is does not matter. -/
def canonical (d : Disk) (p : Path) : Except FileError (List String) :=
  (d.locatePieces .spelling p.pieces).bind namesAt

/-- what stands at these names, asked for by the whole path -/
def standing (d : Disk) (names : List String) : Except FileError FileTree :=
  if pathLimit < fullBytes names then .error .nameTooLong
  else match d.root.at? names with
    | some n => .ok n
    | none => .error .notFound

/-- why the directory at these names cannot be listed -/
def listingFault? (d : Disk) (names : List String) : Option FileError :=
  if pathLimit < fullBytes names then some .nameTooLong else d.faults.listing names

/-- the node a path leads to, links followed -/
def get (d : Disk) (p : Path) : Except FileError FileTree := do
  match d.root.at? (← d.find p) with
  | some n => .ok n
  | none => .error .notFound

def pathExists (d : Disk) (p : Path) : Bool := (d.get p).isOk

def isFile (d : Disk) (p : Path) : Bool :=
  match d.get p with
  | .ok n => n.isFile
  | .error _ => false

def read (d : Disk) (p : Path) : Except FileError Bytes := do
  let names ← d.find p
  match d.faults.reading names with
  | some e => .error e
  | none =>
    match d.root.at? names with
    | some (.file content) => .ok content
    | some _ => .error .isDirectory
    | none => .error .notFound

def readText (d : Disk) (p : Path) : Except FileError String := do
  match decode? (← d.read p) with
  | some s => .ok s
  | none => .error .notText

/-- the names under which a file is written -/
def fileAt (root : FileTree) : Place → Except FileError (List String)
  | .absent dir name => .ok (dir ++ [name])
  | .found names =>
    match root.at? names with
    | some (.file _) => .ok names
    | _ => .error .isDirectory

def withFile (d : Disk) (names : List String) (content : Bytes) : Disk :=
  { d with root := d.root.insert names (.file content) }

/-- The content of a file, which is made when it is missing; its directory is not.  A write that
breaks off leaves the beginning of the content. -/
def write (d : Disk) (p : Path) (content : Bytes) : Disk × Option FileError :=
  match (d.locatePieces .creation p.pieces).bind (fileAt d.root) with
  | .error e => (d, some e)
  | .ok names =>
    match d.faults.writing names with
    | none => (d.withFile names content, none)
    | some fault => ((fault.kept? content).elim d (d.withFile names), some fault.error)

/-! ### filling a tree -/

/-- a tree with nothing in it but the working directory -/
def bare (cwd : List String) : Disk where
  root := (FileTree.dir []).insert cwd (.dir [])
  cwd := cwd

/-- the names on the way to a path when no link is followed -/
def plainNames (d : Disk) (p : Path) : List String :=
  p.pieces.foldl
    (fun names piece =>
      if piece = "" ∨ piece = "." then names
      else if piece = ".." then names.dropLast
      else names ++ [piece])
    (if p.isAbsolute then [] else d.cwd)

/-- Puts a node at a path and makes the directories on the way.  A directory that is there already
stays when it is to be empty. -/
def put (d : Disk) (p : Path) (n : FileTree) : Disk :=
  let names := d.plainNames p
  match n with
  | .dir [] =>
    if (d.root.at? names).any (·.isDir) then d else { d with root := d.root.insert names n }
  | n => { d with root := d.root.insert names n }

def remove (d : Disk) (p : Path) : Disk := { d with root := d.root.erase (d.plainNames p) }

/-! ### directories -/

def stepPiece : Path.Step → String
  | .root => ""
  | .here => "."
  | .up => ".."
  | .name s => s

/-- the pieces of a path given by its steps, the last step first -/
def piecesOf (steps : List Path.Step) : List String :=
  match steps.reverse.map stepPiece with
  | [""] => ["", ""]
  | ps => ps

def dirAt (d : Disk) (steps : List Path.Step) : Except FileError (List String) := do
  if steps = [] then return d.cwd
  match ← d.locatePieces .lookup (piecesOf steps) with
  | .absent _ _ => .error .notFound
  | .found names =>
    match d.root.at? names with
    | some (.dir _) => .ok names
    | _ => .error .notDirectory

/-- one new directory in a directory that exists; steps as in `piecesOf` -/
def makeDir (d : Disk) : List Path.Step → Except FileError Disk
  | [] => .error .notFound
  | .name s :: parent => do
    let names := (← d.dirAt parent) ++ [s]
    if pathLimit < pieceBytes (piecesOf (.name s :: parent)) then .error .nameTooLong
    else if nameLimit < s.utf8ByteSize then .error .nameTooLong
    else if (d.root.at? names).isSome then .error .exists
    else match d.faults.making names with
      | some e => .error e
      | none => .ok { d with root := d.root.insert names (.dir []) }
  | _ :: parent => do
    let _ ← d.dirAt parent
    .error .exists

/-- A directory and all that are missing above it.  What was made stays even when a later one
cannot be made. -/
def makeDirs (d : Disk) : List Path.Step → Disk × Option FileError
  | [] => (d, none)
  | s :: parent =>
    match d.makeDir (s :: parent) with
    | .ok d => (d, none)
    | .error .notFound =>
      match makeDirs d parent with
      | (d, some e) => (d, some e)
      | (d, none) =>
        match d.makeDir (s :: parent) with
        | .ok d => (d, none)
        | .error e => (d, if (d.dirAt (s :: parent)).isOk then none else some e)
    | .error e => (d, if (d.dirAt (s :: parent)).isOk then none else some e)

end Disk

end VersionFloor
