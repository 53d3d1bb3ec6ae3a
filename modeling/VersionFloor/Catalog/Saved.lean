import VersionFloor.Catalog.Symbol
import VersionFloor.Data.Record

/-!
# Catalogs: symbols as they are saved

A symbol is a record of its fields, and what is absent is left out; a catalog is the list of its
symbols, or a record that has the list under `functions`.
-/

namespace VersionFloor

open Data

def Extension.value (e : Extension) : Value :=
  .record <|
    Fields.one "name" (.text e.name) ++
    Fields.given "min_version" (e.minVersion.map fun v => .text v.text)

namespace Symbol

def value (s : Symbol) : Value :=
  .record <|
    Fields.one "name" (.text s.name) ++
    Fields.given "owner" (s.owner.map .text) ++
    Fields.given "min_version" (s.minVersion.map fun v => .text v.text) ++
    Fields.given "extension" (s.extension.map (·.value)) ++
    Fields.given "description" (s.description.map .text)

def listing (symbols : List Symbol) : Value := .list (symbols.map value)

def wrappedListing (symbols : List Symbol) : Value :=
  .record (Fields.one "functions" (listing symbols))

end Symbol

end VersionFloor
