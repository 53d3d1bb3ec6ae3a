import VersionFloor.Config.Reader

/-!
# Settings: from a file

The file is named, or looked for in a directory.
-/

namespace VersionFloor

inductive ConfigError where
  | unreadable (e : FileError)
  | malformed
  deriving DecidableEq, Repr

def ConfigError.message : ConfigError → String
  | .unreadable e => e.message
  | .malformed => "<decoder>"

namespace Config

def fileNames : List String := ["phpvercheck.yaml", ".phpvercheck.yaml"]

/-- the first of the names that is a file -/
def find? (disk : Disk) (dir : Path) : Option Path :=
  (fileNames.map dir.join).find? disk.isFile

def load (disk : Disk) (path : Path) : Except ConfigError Config :=
  match disk.readText path with
  | .error e => .error (.unreadable e)
  | .ok s =>
    match read? s with
    | some c => .ok c
    | none => .error .malformed

end Config

end VersionFloor
