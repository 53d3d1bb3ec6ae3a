import VersionFloor.Catalog.Draft
import VersionFloor.Data.Value

/-!
# Catalogs: lists in plain data

A catalog is a list of entries, or a record that has it under `functions`.  An entry gives its
fields by name, by number, or as a list in the order of the fields.
-/

namespace VersionFloor

open Data

namespace Listing

/-- `none` is a mismatch; the field itself is absent when it is null -/
def text? : Value → Option (Option String)
  | .null => some none
  | .text s => some (some s)
  | _ => none

/-- a text or a number -/
def scalar? : Value → Option (Option String)
  | .null => some none
  | .text s => some (some s)
  | .number n => some (some n.text)
  | _ => none

/-- which field a key means: one of `names`, each with all its spellings, or its number; `none`
for a key that is neither a text nor a natural number -/
def fieldOf? (names : List (List String)) : Value → Option (Option Nat)
  | .text s => some (names.findIdx? (·.contains s))
  | .number (.natural n) => some (if n < names.length then some n else none)
  | _ => none

/-- The values of the fields in order, absent ones as null.  Keys of no field are passed over, and
no field may come twice. -/
def fieldsOfRecord? (names : List (List String)) : List (Value × Value) →
    Option (List (Option Value))
  | [] => some (names.map fun _ => none)
  | (k, v) :: rest => do
    let values ← fieldsOfRecord? names rest
    match ← fieldOf? names k with
    | none => return values
    | some i => if (values[i]?.getD none).isSome then none else return values.set i (some v)

/-- the fields of a record or of a list that has no more items than there are fields -/
def fields? (names : List (List String)) : Value → Option (List Value)
  | .record fs => (fieldsOfRecord? names fs).map fun vs => vs.map (·.getD .null)
  | .list items =>
    if items.length ≤ names.length then
      some (items ++ List.replicate (names.length - items.length) .null)
    else none
  | _ => none

def versionNames : List String := ["minVersion", "min_version", "version"]

def extensionNames : List (List String) := [["name"], versionNames]

def entryNames : List (List String) :=
  [["name"], ["owner", "class"], versionNames, ["extension"], ["description"]]

def extension? (v : Value) : Option (Option ExtensionDraft) :=
  match v with
  | .null => some none
  | v => do
    match ← fields? extensionNames v with
    | [name, version] => return some ⟨← text? name, ← scalar? version⟩
    | _ => none

def entry? (v : Value) : Option Draft := do
  match ← fields? entryNames v with
  | [name, owner, version, extension, description] =>
    return ⟨← text? name, ← text? owner, ← scalar? version, ← extension? extension,
      ← text? description⟩
  | _ => none

def entries? : Value → Option (List Draft)
  | .list items => items.mapM entry?
  | _ => none

/-- the list, or what the record has under `functions` -/
def drafts? : Value → Option (List Draft)
  | .record fs => do
    match ← fieldsOfRecord? [["functions"]] fs with
    | [some v] => entries? v
    | _ => none
  | v => entries? v

end Listing

end VersionFloor
