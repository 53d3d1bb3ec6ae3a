import VersionFloor.Data.Json.Reader
import VersionFloor.Data.Json.Writer
import VersionFloor.Data.Record
import VersionFloor.Report.Basic

/-!
# Reports: a JSON text

`Summary` is what the text says; `Summary.read?` takes the text that `Summary.write` makes.
-/

namespace VersionFloor

open Data

def programName : String := "phpvercheck"

def programVersion : String := "0.1.0"

structure ExtensionSummary where
  name : String
  required : Option String
  deriving DecidableEq, Repr

structure SkipSummary where
  path : String
  reason : String
  deriving DecidableEq, Repr

structure Summary where
  version : String
  path : String
  catalog : String
  required : String
  functions : List String
  classes : List String
  extensions : List ExtensionSummary
  warning : Option String
  unversioned : List String
  scanned : Nat
  skipped : List SkipSummary
  target : Option String
  passed : Bool
  deriving DecidableEq, Repr

def Report.summary (path catalog : String) (target : Option Version) (r : Report) : Summary where
  version := programVersion
  path
  catalog
  required := r.label
  functions := r.functions
  classes := r.classes
  extensions := r.extensions.map fun e => ⟨e.name, e.required.map Version.text⟩
  warning := r.warning?
  unversioned := r.unversioned
  scanned := r.scanned
  skipped := r.skipped.map fun s => ⟨s.path.text, s.reason⟩
  target := target.map Version.text
  passed := r.passes target

/-! ### writing -/

def ExtensionSummary.value (e : ExtensionSummary) : Value :=
  .record <|
    Fields.one "name" (.text e.name) ++
    Fields.given "required_version" (e.required.map .text)

def SkipSummary.value (s : SkipSummary) : Value :=
  .record <|
    Fields.one "path" (.text s.path) ++
    Fields.one "reason" (.text s.reason)

def Summary.value (s : Summary) : Value :=
  .record <|
    Fields.one "version" (.text s.version) ++
    Fields.one "path" (.text s.path) ++
    Fields.one "catalog" (.text s.catalog) ++
    Fields.one "required_version" (.text s.required) ++
    Fields.one "used_functions" (.texts s.functions) ++
    Fields.one "used_classes" (.texts s.classes) ++
    Fields.one "used_extensions" (.list (s.extensions.map (·.value))) ++
    Fields.given "warning" (s.warning.map .text) ++
    Fields.unlessEmpty "unversioned_functions" (s.unversioned.map .text) ++
    Fields.one "files_scanned" (.number (.natural s.scanned)) ++
    Fields.unlessEmpty "skipped" (s.skipped.map (·.value)) ++
    Fields.given "target_version" (s.target.map .text) ++
    Fields.one "passed" (.bool s.passed)

def Summary.write (s : Summary) : String := Json.pretty s.value

/-! ### reading -/

def ExtensionSummary.ofValue? : Value → Option ExtensionSummary
  | .record fs => do
    return {
      name := ← Fields.need? "name" Value.text? fs
      required := ← Fields.may? "required_version" Value.text? fs }
  | _ => none

def SkipSummary.ofValue? : Value → Option SkipSummary
  | .record fs => do
    return {
      path := ← Fields.need? "path" Value.text? fs
      reason := ← Fields.need? "reason" Value.text? fs }
  | _ => none

def Summary.ofValue? : Value → Option Summary
  | .record fs => do
    return {
      version := ← Fields.need? "version" Value.text? fs
      path := ← Fields.need? "path" Value.text? fs
      catalog := ← Fields.need? "catalog" Value.text? fs
      required := ← Fields.need? "required_version" Value.text? fs
      functions := ← Fields.need? "used_functions" (Value.list? Value.text?) fs
      classes := ← Fields.need? "used_classes" (Value.list? Value.text?) fs
      extensions := ← Fields.need? "used_extensions" (Value.list? ExtensionSummary.ofValue?) fs
      warning := ← Fields.may? "warning" Value.text? fs
      unversioned := ← Fields.items? "unversioned_functions" Value.text? fs
      scanned := ← Fields.need? "files_scanned" Value.natural? fs
      skipped := ← Fields.items? "skipped" SkipSummary.ofValue? fs
      target := ← Fields.may? "target_version" Value.text? fs
      passed := ← Fields.need? "passed" Value.bool? fs }
  | _ => none

def Summary.read? (s : String) : Option Summary := (Json.read? s).bind Summary.ofValue?

end VersionFloor
