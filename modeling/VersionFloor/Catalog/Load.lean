import VersionFloor.Catalog.Basic
import VersionFloor.Catalog.Format
import VersionFloor.Check.Error

/-!
# Catalogs: loading from files

The name of a file tells its format.
-/

namespace VersionFloor

def Symbol.withoutDescription (s : Symbol) : Symbol := { s with description := none }

/-- the extension of the file tells the format; `descriptions` tells whether they are kept -/
def Catalog.load (disk : Disk) (path : Path) (descriptions : Bool) : Except CheckError Catalog :=
  match Format.ofPath? path with
  | none => .error (.unsupportedFormat path)
  | some f =>
    match disk.readText path with
    | .error e => .error (.unreadableCatalog path e)
    | .ok s =>
      match f.parse s with
      | .error fault => .error (.malformedCatalog path fault)
      | .ok symbols =>
        .ok (.ofSymbols (if descriptions then symbols else symbols.map Symbol.withoutDescription))

end VersionFloor
