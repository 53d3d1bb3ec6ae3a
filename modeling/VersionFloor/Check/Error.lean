import VersionFloor.Catalog.Draft
import VersionFloor.File.Disk
import VersionFloor.Glob.Basic

/-!
# Checks: why one ends without a report

The message of an error names the path or the pattern that it is about, if there is one.
-/

namespace VersionFloor

/-- why a root cannot be walked -/
inductive RootFault where
  | unreachable (e : FileError)
  | notDirectory
  deriving DecidableEq, Repr

def RootFault.message : RootFault → String
  | .unreachable e => e.message
  | .notDirectory => "not a directory"

inductive CheckError where
  | unresolvableRoot (root : Path) (fault : RootFault)
  | unreadableCatalog (path : Path) (e : FileError)
  | malformedCatalog (path : Path) (fault : CatalogFault)
  | unsupportedFormat (path : Path)
  | invalidExclusion (pattern : String) (e : GlobError)
  | cancelled
  | deadlineExceeded
  deriving DecidableEq, Repr

def CheckError.message : CheckError → String
  | .unresolvableRoot root fault =>
    "root dir " ++ root.quoted ++ " could not be resolved: " ++ fault.message
  | .unreadableCatalog path e =>
    "catalog " ++ path.quoted ++ " not found or not readable: " ++ e.message
  | .malformedCatalog path fault => "catalog " ++ path.quoted ++ " is malformed: " ++ fault.message
  | .unsupportedFormat path =>
    "catalog " ++ path.quoted ++ " has an unsupported format (expected .xml, .json, .yaml or .yml)"
  | .invalidExclusion pattern e =>
    "invalid configuration: excluded path " ++ Text.quoted pattern ++ ": " ++ e.describe pattern
  | .cancelled => "check cancelled"
  | .deadlineExceeded => "check deadline exceeded"

end VersionFloor
