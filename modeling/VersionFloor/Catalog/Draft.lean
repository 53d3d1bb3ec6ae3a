import VersionFloor.Catalog.Symbol

/-!
# Catalogs: entries as they are written

A draft keeps the fields of an entry before the blank ones are dropped.  An entry needs a name; one
nameless entry spoils the whole catalog.
-/

namespace VersionFloor

open Text

structure ExtensionDraft where
  name : Option String
  version : Option String
  deriving DecidableEq, Repr

structure Draft where
  name : Option String
  owner : Option String
  version : Option String
  extension : Option ExtensionDraft
  description : Option String
  deriving DecidableEq, Repr

/-- why a document is no catalog -/
inductive CatalogFault where
  | undecodable
  | wrongShape
  | repeatedField (name : String)
  /-- positions count from one -/
  | nameless (position : Nat)
  deriving DecidableEq, Repr

def CatalogFault.message : CatalogFault → String
  | .undecodable => "<decoder>"
  | .wrongShape => "data did not match any variant of untagged enum Document"
  | .repeatedField name => "duplicate field `" ++ name ++ "`"
  | .nameless position => "entry " ++ toString position ++ " has no name"

/-- an extension without a name is left out, its version too -/
def ExtensionDraft.extension? (e : ExtensionDraft) : Option Extension :=
  (e.name.bind nonBlank?).map fun name => ⟨name, e.version.bind Version.parse?⟩

namespace Draft

def symbol? (d : Draft) : Option Symbol :=
  (d.name.bind nonBlank?).map fun name =>
    { name
      owner := d.owner.bind nonBlank?
      minVersion := d.version.bind Version.parse?
      extension := d.extension.bind (·.extension?)
      description := d.description.bind nonBlank? }

/-- the symbols of all entries; `position` is that of the first one -/
def symbolsFrom (position : Nat) : List Draft → Except CatalogFault (List Symbol)
  | [] => .ok []
  | d :: ds =>
    match d.symbol? with
    | none => .error (.nameless position)
    | some s =>
      match symbolsFrom (position + 1) ds with
      | .ok ss => .ok (s :: ss)
      | .error e => .error e

def symbols (ds : List Draft) : Except CatalogFault (List Symbol) := symbolsFrom 1 ds

end Draft

end VersionFloor
