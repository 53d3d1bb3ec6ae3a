import VersionFloor.Version

/-!
# Catalogs: symbols of the runtime

They are free functions, and functions that belong to a class, with the version and the extension
that provide them.
-/

namespace VersionFloor

structure Extension where
  name : String
  minVersion : Option Version
  deriving DecidableEq

structure Symbol where
  name : String
  /-- the class it belongs to -/
  owner : Option String
  minVersion : Option Version
  extension : Option Extension
  description : Option String
  deriving DecidableEq

namespace Symbol

/-- a free function of no extension; a blank version is absent -/
def free (name : String) (version : Option String) : Symbol :=
  ⟨name, none, version.bind Version.parse?, none, none⟩

def ownedBy (s : Symbol) (owner : String) : Symbol := { s with owner := some owner }

def inExtension (s : Symbol) (name : String) (version : Option String) : Symbol :=
  { s with extension := some ⟨name, version.bind Version.parse?⟩ }

def qualifiedName (s : Symbol) : String :=
  match s.owner with
  | some owner => owner ++ "::" ++ s.name
  | none => s.name

end Symbol

end VersionFloor
