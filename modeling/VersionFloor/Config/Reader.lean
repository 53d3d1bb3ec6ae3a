import VersionFloor.Catalog.Listing
import VersionFloor.Config.Basic
import VersionFloor.Data.Yaml.Value

/-!
# Settings: from a YAML text

The text is a record with the settings by name.  Other names are passed over, and no setting may be
given twice.
-/

namespace VersionFloor

open Data
open Data.Yaml (isNull coreTag boolOf?)

namespace Config

/-- the text of any scalar, as it is written -/
def textOf? (d : Yaml.Document) (n : Yaml.Node) : Option String :=
  match d.target? n with
  | some (.scalar _ _ _ s) => some s
  | _ => none

/-- `some none` for a setting that is left out or null -/
def given? (d : Yaml.Document) (n : Yaml.Node) : Option (Option Yaml.Node) :=
  match d.target? n with
  | none => none
  | some (.scalar a tag style s) =>
    let present := some (some (Yaml.Node.scalar a tag style s))
    if style ≠ .plain then present
    else match tag with
      | none => if s = "" ∨ isNull s then some none else present
      | some t =>
        if t = coreTag "null" then (if isNull s then some none else none) else present
  | some n => some (some n)

def boolSetting? (n : Yaml.Node) : Option Bool :=
  match n with
  | .scalar _ tag style s =>
    if style = .plain ∨ (style = .literal ∧ tag = some (coreTag "bool")) then boolOf? s else none
  | _ => none

/-- a text or a number -/
def versionSetting? (d : Yaml.Document) (n : Yaml.Node) : Option String :=
  (d.valueOf? n).bind fun v => (Listing.scalar? v).bind id

/-- a list of scalars, empty when it is left out -/
def textsSetting? (d : Yaml.Document) (n : Yaml.Node) : Option (List String) :=
  match d.target? n with
  | some (.list _ _ items) => items.mapM (textOf? d)
  | some n => if n.isBlank then some [] else none
  | none => none

/-- the settings by name -/
abbrev Settings := List (String × Yaml.Node)

/-- the node of a name that comes once at most -/
def setting? (s : Settings) (name : String) : Option (Option Yaml.Node) :=
  match s.filter (·.1 == name) with
  | [] => some none
  | [(_, n)] => some (some n)
  | _ => none

def optional? (d : Yaml.Document) (s : Settings) (name : String) (read? : Yaml.Node → Option α) :
    Option (Option α) := do
  match ← setting? s name with
  | none => return none
  | some n =>
    match ← given? d n with
    | none => return none
    | some n => return some (← read? n)

def texts? (d : Yaml.Document) (s : Settings) (name : String) : Option (List String) := do
  match ← setting? s name with
  | none => return []
  | some n => textsSetting? d n

def ofSettings? (d : Yaml.Document) (s : Settings) : Option Config := do
  return {
    catalog := ← optional? d s "catalog" (textOf? d)
    extensions := ← texts? d s "extensions"
    excluded := ← texts? d s "excluded_paths"
    ignored := ← texts? d s "ignored_symbols"
    target := ← optional? d s "target_version" (versionSetting? d)
    parallel := ← optional? d s "parallel" boolSetting?
    descriptions := ← optional? d s "include_descriptions" boolSetting? }

def ofDocument? (d : Yaml.Document) : Option Config :=
  match d.root with
  | none => some empty
  | some (.record _ _ pairs) => do
    ofSettings? d (← pairs.mapM fun (k, n) => return (← textOf? d k, n))
  | some n => if n.isBlank then some empty else none

/-- the document must stand alone -/
def read? (s : String) : Option Config := do
  let d ← Yaml.read? s
  let c ← ofDocument? d
  if d.alone then some c else none

end Config

end VersionFloor
