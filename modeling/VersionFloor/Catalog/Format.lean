import VersionFloor.Catalog.Listing
import VersionFloor.Catalog.Markup
import VersionFloor.Data.Json.Reader
import VersionFloor.Data.Yaml.Value
import VersionFloor.File.Path
import VersionFloor.Text.Case

/-!
# Catalogs: the formats of files

A catalog is read as a whole or not at all.
-/

namespace VersionFloor

open Data Text

inductive Format where
  | xml
  | json
  | yaml
  deriving DecidableEq, Repr

namespace Format

def ofExtension? (e : String) : Option Format :=
  match lower e with
  | "xml" => some .xml
  | "json" => some .json
  | "yaml" => some .yaml
  | "yml" => some .yaml
  | _ => none

def ofPath? (p : Path) : Option Format := p.extension?.bind ofExtension?

def draftsOfValue (v : Value) : Except CatalogFault (List Draft) :=
  match Listing.drafts? v with
  | some ds => .ok ds
  | none => .error .wrongShape

def jsonDrafts (s : String) : Except CatalogFault (List Draft) :=
  match Json.read? s with
  | some v => draftsOfValue v
  | none => .error .undecodable

/-- a document that is not alone is refused only when its shape is right -/
def yamlDrafts (s : String) : Except CatalogFault (List Draft) :=
  match Yaml.read? s with
  | none => .error .undecodable
  | some d =>
    match d.value? with
    | none => .error .undecodable
    | some v => do
      let ds ← draftsOfValue v
      if d.alone then .ok ds else .error .undecodable

def drafts : Format → String → Except CatalogFault (List Draft)
  | .xml => Markup.drafts
  | .json => jsonDrafts
  | .yaml => yamlDrafts

def parse (f : Format) (s : String) : Except CatalogFault (List Symbol) := do
  Draft.symbols (← f.drafts s)

end Format

end VersionFloor
