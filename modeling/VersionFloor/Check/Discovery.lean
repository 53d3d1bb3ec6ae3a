import VersionFloor.Check.Error
import VersionFloor.Glob.Match
import VersionFloor.Glob.Reading
import VersionFloor.Report.Basic
import VersionFloor.Text.Case
import VersionFloor.Text.Split

/-!
# Checks: the source files below a root

They are regular files with one of the extensions, neither excluded nor behind a link.  A directory
that is excluded is not entered, and of one that cannot be listed only the fault is known.
-/

namespace VersionFloor

open Text

/-- which files count as source files -/
structure Selection where
  extensions : List String
  /-- glob patterns -/
  excluded : List String
  deriving DecidableEq, Repr

namespace Selection

def defaultExtensions : List String := ["php", "phtml"]

def default : Selection := ⟨defaultExtensions, []⟩

/-- an extension as it is asked for, without the points in front -/
def withoutPoints (s : String) : List Char := s.toList.dropWhile (· == '.')

/-- what the extension of a file is compared with, in lower case -/
def extensionKey (s : String) : String := lower (String.ofList (withoutPoints s))

end Selection

/-- a step of a walk: a source file, or a directory that cannot be listed -/
inductive Found where
  | file (path : Path)
  | unlisted (s : Skip)

namespace Found

def path? : Found → Option Path
  | .file path => some path
  | .unlisted _ => none

def skip? : Found → Option Skip
  | .file _ => none
  | .unlisted s => some s

end Found

/-- a walk that is ready to begin -/
structure Discovery where
  /-- the names on the way to the root -/
  root : List String
  extensions : List String
  excluded : List Glob

namespace Discovery

def rootPath (d : Discovery) : Path := ⟨"/" ++ joinWith "/" d.root⟩

/-- the path of what these names lead to from the root -/
def pathOf (d : Discovery) (names : List String) : Path :=
  ⟨"/" ++ joinWith "/" (d.root ++ names)⟩

/-- what the patterns are matched against; a backslash counts as a slash -/
def patternText (names : List String) : String :=
  String.ofList ((joinWith "/" names).toList.map fun c => if c = '\\' then '/' else c)

def excludes (d : Discovery) (names : List String) : Bool :=
  d.excluded.any (·.isMatch (patternText names))

def recognizes (d : Discovery) (name : String) : Bool :=
  (Path.extensionOf? name).any fun e => d.extensions.contains (lower e)

def isLink : FileTree → Bool
  | .link _ => true
  | _ => false

/-- where a walk stops, by the names from its root -/
structure Stop where
  names : List String
  /-- why the directory at these names cannot be listed; absent at a file -/
  fault? : Option FileError
  deriving DecidableEq, Repr

mutual

/-- the stops at a node that `here` leads to -/
def stopsAt (d : Discovery) (disk : Disk) (here : List String) : FileTree → List Stop
  | .file _ => if (d.root ++ here).getLast?.any d.recognizes then [⟨here, none⟩] else []
  | .link _ => []
  | .dir entries =>
    match disk.listingFault? (d.root ++ here) with
    | some e => [⟨here, some e⟩]
    | none => stopsIn d disk here entries

def stopsIn (d : Discovery) (disk : Disk) (here : List String) :
    List (String × FileTree) → List Stop
  | [] => []
  | (name, n) :: rest =>
    (if isLink n || d.excludes (here ++ [name]) then [] else stopsAt d disk (here ++ [name]) n) ++
      stopsIn d disk here rest

end

/-- what is known of a directory that cannot be listed -/
def skipAt (d : Discovery) (names : List String) (e : FileError) : Skip :=
  ⟨d.pathOf names,
    "IO error for operation on " ++ (d.pathOf names).text ++ ": " ++ e.message⟩

def foundAt (d : Discovery) (s : Stop) : Found :=
  match s.fault? with
  | none => .file (d.pathOf s.names)
  | some e => .unlisted (d.skipAt s.names e)

/-- what the walk comes to, step by step -/
def walk (d : Discovery) (disk : Disk) : List Found :=
  match disk.standing d.root with
  | .ok n => (d.stopsAt disk [] n).map d.foundAt
  | .error e => [.unlisted (d.skipAt [] e)]

def files (d : Discovery) (disk : Disk) : List Path := (d.walk disk).filterMap Found.path?

def unlisted (d : Discovery) (disk : Disk) : List Skip := (d.walk disk).filterMap Found.skip?

end Discovery

/-- the names of the directory that a root leads to; it must be one that can be listed -/
def rootOf (disk : Disk) (root : Path) : Except RootFault (List String) := do
  let names ← (disk.canonical root).mapError .unreachable
  let n ← (disk.standing names).mapError .unreachable
  if n.isDir then
    match disk.listingFault? names with
    | none => .ok names
    | some e => .error (.unreachable e)
  else .error .notDirectory

/-- The patterns must be well formed. -/
def discover (disk : Disk) (root : Path) (s : Selection) : Except CheckError Discovery := do
  let names ← (rootOf disk root).mapError (.unresolvableRoot root)
  let excluded ← (Glob.parseAll s.excluded).mapError fun f => .invalidExclusion f.1 f.2
  return ⟨names, s.extensions.map Selection.extensionKey, excluded⟩

end VersionFloor
