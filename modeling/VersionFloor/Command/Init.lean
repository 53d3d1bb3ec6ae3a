import VersionFloor.Command.Outcome

/-!
# Commands: beginning with a settings file

The command refuses an output that is there already.  What it has made before it fails stays.
-/

namespace VersionFloor

namespace Init

def template : String := "# phpvercheck configuration
#
# Every field is optional. Command-line flags override these values.

# Function catalog produced by the crawler (.xml), or a hand-kept .json/.yaml.
catalog: functions/functions.xml

# Source file extensions to scan.
extensions:
  - php
  - phtml

# Paths to skip, as globs relative to the project root.
excluded_paths:
  - \"vendor\"
  - \"node_modules\"

# Symbols that should never raise the required version (Owner::name or name).
ignored_symbols: []

# Fail (exit code 1) when the project needs a newer runtime than this.
# Quote the value so YAML keeps it a string.
# target_version: \"7.4\"

# Scan files on all cores.
parallel: true
"

def created (output : Path) : String :=
  "Created " ++ output.text ++ "\n\nNext steps:\n" ++
    "  1. Point 'catalog' at your function catalog\n" ++
    "  2. Run: phpvercheck check . --config " ++ output.text ++ "\n"

/-- makes the directory of the output where it has one of its own -/
def makeParent (disk : Disk) (output : Path) : Disk × Option FileError :=
  match output.parent? with
  | none => (disk, none)
  | some steps =>
    if steps = [] ∨ steps = [.here] then (disk, none) else disk.makeDirs steps.reverse

def run (disk : Disk) (output : Path) : Outcome × Disk :=
  if disk.pathExists output then (.failure "" (.outputExists output), disk)
  else
    match makeParent disk output with
    | (disk, some e) => (.failure "" (.noDirectory e), disk)
    | (disk, none) =>
      match disk.write output (Text.encode template) with
      | (disk, some e) => (.failure "" (.unwritable e), disk)
      | (disk, none) => (⟨Outcome.passed, created output, ""⟩, disk)

end Init

end VersionFloor
