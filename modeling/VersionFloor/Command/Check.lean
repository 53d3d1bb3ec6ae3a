import VersionFloor.Catalog.Load
import VersionFloor.Check.Run
import VersionFloor.Command.Line
import VersionFloor.Command.Outcome
import VersionFloor.Report.Printed

/-!
# Commands: checking a project

The exit code tells whether the project stays within the target.
-/

namespace VersionFloor

inductive OutputFormat where
  | pretty
  | json
  | version
  deriving DecidableEq, Repr

def OutputFormat.ofText? (s : String) : Option OutputFormat :=
  if s = "pretty" then some .pretty
  else if s = "json" then some .json
  else if s = "version" then some .version
  else none

/-- what the command line says goes before what the settings say -/
def Config.overriddenBy (c : Config) (o : CheckOptions) : Config where
  catalog := o.catalog.or c.catalog
  extensions := if o.extensions.isEmpty then c.extensions else o.extensions
  excluded := c.excluded
  ignored := c.ignored
  target := o.target.or c.target
  parallel := if o.sequential then some false else c.parallel
  descriptions := if o.descriptions then some true else c.descriptions

namespace CheckOptions

/-- the settings file that is named, or else the one that stands in the working directory -/
def configPath? (disk : Disk) (o : CheckOptions) : Option Path :=
  match o.config with
  | some p => some ⟨p⟩
  | none => Config.find? disk ⟨"."⟩

def configOf (disk : Disk) (o : CheckOptions) : Except CommandError Config :=
  match o.configPath? disk with
  | none => .ok (Config.empty.overriddenBy o)
  | some path =>
    match Config.load disk path with
    | .error e => .error (.unusableConfig path e)
    | .ok c => .ok (c.overriddenBy o)

/-- all that a check needs -/
structure Prepared where
  format : OutputFormat
  config : Config
  catalogPath : Path
  catalog : Catalog

def prepare (disk : Disk) (o : CheckOptions) : Except CommandError Prepared :=
  match OutputFormat.ofText? o.format with
  | none => .error (.invalidFormat o.format)
  | some format => do
    let config ← o.configOf disk
    match config.validate, config.catalog with
    | .error fault, _ => .error (.invalidConfig fault)
    | .ok _, none => .error .noCatalog
    | .ok _, some path =>
      match Catalog.load disk ⟨path⟩ config.keepsDescriptions with
      | .error e => .error (.failed e)
      | .ok catalog => .ok ⟨format, config, ⟨path⟩, catalog⟩

namespace Prepared

def check (p : Prepared) : Check where
  catalog := p.catalog
  selection := p.config.selection
  ignored := p.config.ignored
  parallel := p.config.runsParallel
  cancelled := false
  expired := false

def emptyWarning (p : Prepared) : String :=
  if p.catalog.isEmpty then "Warning: catalog " ++ p.catalogPath.text ++ " has no entries\n" else ""

def output (p : Prepared) (color : Bool) (project : String) (r : Report) : String :=
  let target := p.config.targetVersion
  match p.format with
  | .json => (r.summary project p.catalogPath.text target).write ++ "\n"
  | .version => r.label ++ "\n"
  | .pretty => r.printed color project p.catalogPath.text target

end Prepared

def scanWarning (r : Report) : String :=
  if r.scanned = 0 then "Warning: no files to scan\n" else ""

def run (color : Bool) (disk : Disk) (o : CheckOptions) : Outcome :=
  match o.prepare disk with
  | .error e => .failure "" e
  | .ok p =>
    match p.check.run disk ⟨o.project⟩ with
    | .error e => .failure p.emptyWarning (.failed e)
    | .ok r =>
      ⟨if r.passes p.config.targetVersion then Outcome.passed else Outcome.exceeded,
        p.output color o.project r, p.emptyWarning ++ scanWarning r⟩

end CheckOptions

end VersionFloor
