import VersionFloor.Catalog.Basic
import VersionFloor.Check.Discovery
import VersionFloor.Check.Plan
import VersionFloor.Report.Tally
import VersionFloor.Source.Call

/-!
# Checks: from a root to a report

Every source file below a root is read, its calls are looked up in the catalog, and what they need
is tallied.
-/

namespace VersionFloor

open Text

structure Check where
  catalog : Catalog
  selection : Selection
  /-- qualified names, in any case, that are never counted -/
  ignored : List String
  parallel : Bool
  cancelled : Bool
  /-- whether the deadline has passed -/
  expired : Bool

namespace Check

/-- a check of a catalog with nothing else asked for -/
def plain (catalog : Catalog) : Check := ⟨catalog, .default, [], false, false, false⟩

def ignores (c : Check) (s : Symbol) : Bool :=
  c.ignored.any fun i => lower i == lower s.qualifiedName

/-- the symbols that a source text uses -/
def matched (c : Check) (content : List Char) : List Symbol :=
  ((Source.calls content).filterMap fun call => c.catalog.resolve? call.owner? call.name?).filter
    (!c.ignores ·)

/-- a file that cannot be read is skipped -/
def scanFile (c : Check) (disk : Disk) (t : Tally) (path : Path) : Tally :=
  match disk.read path with
  | .error e => t.fileSkipped ⟨path, e.message⟩
  | .ok bytes => (c.matched (decodeLossy bytes)).foldl Tally.record t.fileScanned

def checkpoint (c : Check) : Except CheckError Unit :=
  if c.cancelled then .error .cancelled
  else if c.expired then .error .deadlineExceeded
  else .ok ()

def step (c : Check) (disk : Disk) (t : Tally) (path : Path) : Except CheckError Tally := do
  c.checkpoint
  return c.scanFile disk t path

/-- Scans each file when the walk comes to it.  What cannot be listed is put aside. -/
def scanInTurn (c : Check) (disk : Disk) (t : Tally) (aside : List Skip) :
    List Found → Except CheckError (Tally × List Skip)
  | [] => .ok (t, aside)
  | .file path :: rest => do c.scanInTurn disk (← c.step disk t path) aside rest
  | .unlisted s :: rest => c.scanInTurn disk t (aside ++ [s]) rest

/-- Walks to the end first and leaves all files to a pool of workers. -/
def scanTogether (pool : List Path → Except CheckError Tally) (found : List Found) :
    Except CheckError (Tally × List Skip) := do
  let t ← pool (found.filterMap Found.path?)
  return (t, found.filterMap Found.skip?)

/-- scans the files of a plan; every chunk starts from nothing -/
def scanPlan (c : Check) (disk : Disk) (p : Plan Path) : Except CheckError Tally :=
  p.fold ∅ (c.step disk) Tally.merge

def planDepth : Nat := 3

/-- the workers that share the files of a check in halves -/
def halvesPool (c : Check) (disk : Disk) (files : List Path) : Except CheckError Tally :=
  c.scanPlan disk (.halves planDepth files)

def scan (c : Check) (pool : List Path → Except CheckError Tally) (disk : Disk)
    (found : List Found) : Except CheckError (Tally × List Skip) :=
  if c.parallel then scanTogether pool found else c.scanInTurn disk ∅ [] found

/-- a check that leaves its files to these workers when it is parallel -/
def runWith (c : Check) (pool : List Path → Except CheckError Tally) (disk : Disk) (root : Path) :
    Except CheckError Report := do
  let d ← discover disk root c.selection
  let (t, aside) ← c.scan pool disk (d.walk disk)
  return (aside.foldl Tally.fileSkipped t).report

def run (c : Check) (disk : Disk) (root : Path) : Except CheckError Report :=
  c.runWith (c.halvesPool disk) disk root

end Check

end VersionFloor
