import VersionFloor.Check.Error
import VersionFloor.Config.File

/-!
# Commands: what one leaves behind

A command ends with an exit code, and it has printed two texts.
-/

namespace VersionFloor

structure Outcome where
  exitCode : Nat
  out : String
  err : String
  deriving DecidableEq, Repr

inductive CommandError where
  | invalidFormat (name : String)
  | unusableConfig (path : Path) (e : ConfigError)
  | invalidConfig (fault : ConfigFault)
  | noCatalog
  | failed (e : CheckError)
  | outputExists (path : Path)
  | noDirectory (e : FileError)
  | unwritable (e : FileError)
  deriving DecidableEq, Repr

def CommandError.message : CommandError → String
  | .invalidFormat name =>
    "invalid format " ++ Text.quoted name ++ ", must be 'pretty', 'json', or 'version'"
  | .unusableConfig path e => "parsing config " ++ path.text ++ ": " ++ e.message
  | .invalidConfig fault => "invalid configuration: " ++ fault.message
  | .noCatalog => "no catalog given (use --catalog or set 'catalog' in the config)\n" ++
      "Run 'phpvercheck init' to create a config file"
  | .failed e => e.message
  | .outputExists path => "file already exists: " ++ path.text ++
      "\nRemove it or use --output to specify a different path"
  | .noDirectory e => "failed to create directory: " ++ e.message
  | .unwritable e => "failed to write config: " ++ e.message

namespace Outcome

def passed : Nat := 0

def exceeded : Nat := 1

def error : Nat := 2

/-- nothing is printed but the error, behind the warnings there were -/
def failure (warnings : String) (e : CommandError) : Outcome :=
  ⟨error, "", warnings ++ "Error: " ++ e.message ++ "\n"⟩

end Outcome

end VersionFloor
