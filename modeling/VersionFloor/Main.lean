import VersionFloor.Command.Run

/-!
# The program

Standard input names the files of the project, one path on a line; the files are read before
anything is done, and only a new settings file is written.
-/

namespace VersionFloor.Program

def usage : String :=
  "Usage: " ++ programName ++ " [--verbose] <COMMAND>\n\n" ++
  "Commands:\n" ++
  "  check [PATH]  Determine the version that a project requires\n" ++
  "  init          Write a settings file\n\n" ++
  "Options of check:\n" ++
  "  -C, --catalog <FILE>    -c, --config <FILE>      -f, --format <FORMAT>\n" ++
  "  -t, --target <VERSION>  -e, --extension <NAME>   --sequential  --descriptions\n" ++
  "Options of init:\n" ++
  "  -o, --output <FILE>\n"

/-- the text that goes with a command line that asks for nothing to be done -/
def usageText : Usage → String
  | .version => programName ++ " " ++ programVersion ++ "\n"
  | _ => usage

/-- the files that a command looks at besides those of the project -/
def mentioned : Command → List String
  | .check options => options.catalog.toList ++ options.config.toList ++ Config.fileNames
  | .init output => [output]

/-- the names of the directory that a path stands in -/
def directoryOf (path : String) : Option String :=
  match (Path.pieces ⟨path⟩).dropLast with
  | [] => none
  | pieces => some (Text.joinWith "/" pieces)

/-! ### reading and writing -/

partial def readLines (input : IO.FS.Stream) (before : List String) : IO (List String) := do
  let line ← input.getLine
  if line.isEmpty then return before.reverse
  readLines input (Text.lines line ++ before)

/-- a file that cannot be read is left out -/
def readInto (disk : Disk) (path : String) : IO Disk := do
  try
    let content ← IO.FS.readBinFile path
    return disk.put ⟨path⟩ (.file content.toList)
  catch _ => return disk

def writeFile (disk : Disk) (path : String) : IO Unit := do
  match disk.read ⟨path⟩ with
  | .error _ => return
  | .ok content =>
    if let some dir := directoryOf path then
      if dir != "" then IO.FS.createDirAll dir
    IO.FS.writeBinFile path ⟨content.toArray⟩

def runCommand (command : Command) : IO UInt32 := do
  let listed ← match command with
    | .check _ => readLines (← IO.getStdin) []
    | .init _ => pure []
  let cwd := (Path.pieces ⟨toString (← IO.currentDir)⟩).filter (· != "")
  let disk ← (mentioned command ++ listed).foldlM readInto (Disk.bare cwd)
  let color ← (← IO.getStdout).isTty
  let (outcome, after) := command.run color disk
  IO.print outcome.out
  IO.eprint outcome.err
  if let .init output := command then
    if outcome.exitCode == Outcome.passed then writeFile after output
  return UInt32.ofNat outcome.exitCode

def run (args : List String) : IO UInt32 := do
  match CommandLine.read args with
  | .ok line => runCommand line.command
  | .error u =>
    if u.exitCode == 0 then IO.print (usageText u) else IO.eprint (usageText u)
    return UInt32.ofNat u.exitCode

end VersionFloor.Program

def main (args : List String) : IO UInt32 := VersionFloor.Program.run args
