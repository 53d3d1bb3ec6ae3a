import VersionFloor.Command.Arguments

/-!
# Commands: a whole command line

A line has flags, a command, and the arguments of the command.
-/

namespace VersionFloor

structure CheckOptions where
  project : String
  catalog : Option String
  config : Option String
  format : String
  target : Option String
  extensions : List String
  sequential : Bool
  descriptions : Bool
  deriving DecidableEq, Repr

inductive Command where
  | check (options : CheckOptions)
  /-- writes the settings to begin with -/
  | init (output : String)
  deriving DecidableEq, Repr

structure CommandLine where
  verbose : Bool
  command : Command
  deriving DecidableEq, Repr

namespace Arguments

def checkOptions (a : Arguments) : CheckOptions where
  project := (a.value? .project).getD "."
  catalog := a.value? .catalog
  config := a.value? .config
  format := (a.value? .format).getD "pretty"
  target := a.value? .target
  extensions := a.all .extension
  sequential := a.has .sequential
  descriptions := a.has .descriptions

def output (a : Arguments) : String := (a.value? .output).getD "phpvercheck.yaml"

end Arguments

namespace CommandLine

def commandNames : List String := ["check", "init", "help"]

/-- the help of a command; no command has commands of its own -/
def helpOn : List String → Usage
  | [] => .help
  | [name] => if commandNames.contains name then .help else .unknownCommand
  | _ => .unknownCommand

def readCommand (verbose : Bool) (name : String) (rest : List String) :
    Except Usage CommandLine := do
  match name with
  | "check" =>
    let a ← Arguments.read .check .empty rest
    return ⟨verbose || a.has .verbose, .check a.checkOptions⟩
  | "init" =>
    let a ← Arguments.read .init .empty rest
    return ⟨verbose || a.has .verbose, .init a.output⟩
  | _ => .error (helpOn rest)

/-- behind a lone double dash no command is taken -/
def withoutCommand (a : Arguments) : List String → Usage
  | [] => if a.flags.isEmpty then .nothing else .missingCommand
  | name :: _ => if commandNames.contains name then .unknownArgument else .unknownCommand

/-- the flags in front of the command -/
def readFrom (a : Arguments) : List String → Except Usage CommandLine
  | [] => .error (withoutCommand a [])
  | s :: rest =>
    if commandNames.contains s then readCommand (a.has .verbose) s rest
    else match s.toList with
      | ['-', '-'] => .error (withoutCommand a rest)
      | '-' :: '-' :: long => do readFrom (← a.takeLong .outer long) rest
      | '-' :: c :: row => do readFrom (← a.takeRow .outer (c :: row)) rest
      | _ => .error .unknownCommand

def read (args : List String) : Except Usage CommandLine := readFrom .empty args

end CommandLine

end VersionFloor
