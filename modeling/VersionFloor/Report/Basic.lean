import VersionFloor.File.Path
import VersionFloor.Version

/-!
# Reports: what a check finds

A report has the version that a project requires, and the functions, classes and extensions that it
uses.
-/

namespace VersionFloor

/-- a file that could not be read -/
structure Skip where
  path : Path
  reason : String
  deriving DecidableEq, Repr

/-- by path, then by reason -/
def Skip.order (a b : Skip) : Ordering := (a.path.order b.path).then (compare a.reason b.reason)

/-- ascending, equal ones in the order given -/
def Skip.sorted (ss : List Skip) : List Skip := ss.mergeSort fun a b => a.order b != .gt

/-- an extension and the highest version that is required of it -/
structure ExtensionUse where
  name : String
  required : Option Version
  deriving DecidableEq

structure Report where
  /-- absent when nothing that is used has a known version -/
  required : Option Version
  functions : List String
  classes : List String
  extensions : List ExtensionUse
  /-- the version may be too low when that of some function is not known -/
  isUncertain : Bool
  /-- functions whose version is not known -/
  unversioned : List String
  scanned : Nat
  skipped : List Skip
  deriving DecidableEq

namespace Report

def unknownLabel : String := "unknown"

def label (r : Report) : String := (r.required.map Version.text).getD unknownLabel

def uncertainty : String :=
  "WARNING: the given required version could be higher, as the documentation of some functions " ++
    "used in this project lacks details about the required version."

def warning? (r : Report) : Option String :=
  if r.isUncertain then
    some (uncertainty ++
      if r.unversioned.isEmpty then ""
      else "\nThis is due to the use of the following functions: " ++
        Text.joinWith ", " r.unversioned ++ ".")
  else none

/-- whether more is required than the target; what is not known never exceeds it -/
def exceeds (r : Report) (target : Version) : Bool := r.required.any (·.exceeds target)

def passes (r : Report) (target : Option Version) : Bool := !(target.any r.exceeds)

end Report

end VersionFloor
