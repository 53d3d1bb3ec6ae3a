import VersionFloor.Check.Discovery

/-!
# Settings: what a project may ask for

What is absent has a default.
-/

namespace VersionFloor

open Text

structure Config where
  /-- the path of the catalog -/
  catalog : Option String
  extensions : List String
  /-- glob patterns -/
  excluded : List String
  /-- qualified names that are never counted -/
  ignored : List String
  /-- the highest version that a project may require -/
  target : Option String
  parallel : Option Bool
  descriptions : Option Bool
  deriving DecidableEq, Repr

inductive ConfigFault where
  | emptyExtension
  | invalidExclusion (pattern : String) (e : GlobError)
  deriving DecidableEq, Repr

def ConfigFault.message : ConfigFault → String
  | .emptyExtension => "extensions must not contain empty entries"
  | .invalidExclusion pattern e =>
    "invalid excluded path " ++ Text.quoted pattern ++ ": " ++ e.describe pattern

namespace Config

def empty : Config := ⟨none, [], [], [], none, none, none⟩

def effectiveExtensions (c : Config) : List String :=
  if c.extensions.isEmpty then Selection.defaultExtensions else c.extensions

def selection (c : Config) : Selection := ⟨c.effectiveExtensions, c.excluded⟩

def runsParallel (c : Config) : Bool := c.parallel.getD true

def keepsDescriptions (c : Config) : Bool := c.descriptions.getD false

/-- a blank target is none -/
def targetVersion (c : Config) : Option Version := c.target.bind Version.parse?

def isEmptyExtension (s : String) : Bool := (Selection.withoutPoints s).all isBlank

def validate (c : Config) : Except ConfigFault Unit :=
  if c.extensions.any isEmptyExtension then .error .emptyExtension
  else match Glob.parseAll c.excluded with
    | .error (pattern, e) => .error (.invalidExclusion pattern e)
    | .ok _ => .ok ()

end Config

end VersionFloor
