/-!
# Commands: arguments

Options take a value and flags take none; flags of one letter may share a dash, and an option may
end their row.  A value is checked when the next argument begins or when the arguments end.
-/

namespace VersionFloor

/-- why a command line stops before anything is done -/
inductive Usage where
  | help
  | version
  /-- nothing is asked for at all -/
  | nothing
  | missingCommand
  | unknownCommand
  | unknownArgument
  | invalidValue
  | tooManyValues
  | conflict
  deriving DecidableEq, Repr

def Usage.exitCode : Usage → Nat
  | .help => 0
  | .version => 0
  | _ => 2

inductive Flag where
  | verbose
  | sequential
  | descriptions
  | help
  | version
  deriving DecidableEq, Repr

/-- what takes a value -/
inductive Field where
  | catalog
  | config
  | format
  | target
  | extension
  | output
  /-- the project, which is given without a name -/
  | project
  deriving DecidableEq, Repr

/-- a path may not be empty -/
def Field.accepts (f : Field) (value : String) : Bool :=
  match f with
  | .format => true
  | .target => true
  | .extension => true
  | _ => value != ""

def Field.isRepeatable (f : Field) : Bool := f == .extension

/-- an option or a flag -/
inductive Switch where
  | flag (f : Flag)
  | field (f : Field)
  deriving DecidableEq, Repr

/-- the names of a switch, without dashes -/
structure Naming where
  switch : Switch
  short : Option Char
  long : String

/-- what a command understands -/
structure Grammar where
  namings : List Naming
  takesProject : Bool

namespace Grammar

def ofShort? (g : Grammar) (c : Char) : Option Switch :=
  (g.namings.find? (·.short == some c)).map (·.switch)

def ofLong? (g : Grammar) (s : String) : Option Switch :=
  (g.namings.find? (·.long == s)).map (·.switch)

def verbose : Naming := ⟨.flag .verbose, some 'v', "verbose"⟩

def help : Naming := ⟨.flag .help, some 'h', "help"⟩

/-- in front of a command -/
def outer : Grammar := ⟨[verbose, help, ⟨.flag .version, some 'V', "version"⟩], false⟩

def check : Grammar where
  namings := [verbose, help,
    ⟨.field .catalog, some 'C', "catalog"⟩,
    ⟨.field .config, some 'c', "config"⟩,
    ⟨.field .format, some 'f', "format"⟩,
    ⟨.field .target, some 't', "target"⟩,
    ⟨.field .extension, some 'e', "extension"⟩,
    ⟨.flag .sequential, none, "sequential"⟩,
    ⟨.flag .descriptions, none, "descriptions"⟩]
  takesProject := true

def init : Grammar := ⟨[verbose, help, ⟨.field .output, some 'o', "output"⟩], false⟩

end Grammar

/-! ### reading -/

structure Arguments where
  flags : List Flag
  /-- in the order given -/
  values : List (Field × String)
  /-- a field whose value is not checked yet, or still to come -/
  pending : Option (Field × Option String)
  /-- whether the project has been given -/
  hasProject : Bool

namespace Arguments

def empty : Arguments := ⟨[], [], none, false⟩

def has (a : Arguments) (f : Flag) : Bool := a.flags.contains f

def all (a : Arguments) (f : Field) : List String :=
  (a.values.filter (·.1 == f)).map (·.2)

def value? (a : Arguments) (f : Field) : Option String := (a.all f).head?

def set (a : Arguments) (f : Field) (value : String) : Except Usage Arguments :=
  if !f.isRepeatable && (a.value? f).isSome then .error .conflict
  else if f.accepts value then .ok { a with values := a.values ++ [(f, value)] }
  else .error .invalidValue

/-- checks what is pending -/
def settle (a : Arguments) : Except Usage Arguments :=
  match a.pending with
  | none => .ok a
  | some (_, none) => .error .invalidValue
  | some (f, some value) => { a with pending := none }.set f value

def raise (a : Arguments) (f : Flag) : Except Usage Arguments := do
  let a ← a.settle
  match f with
  | .help => .error .help
  | .version => .error .version
  | f => if a.has f then .error .conflict else .ok { a with flags := a.flags ++ [f] }

/-- an option with its value, or one whose value is the next argument -/
def take (a : Arguments) (f : Field) (value : Option String) : Except Usage Arguments := do
  let a ← a.settle
  match value with
  | some v => a.set f v
  | none => .ok { a with pending := some (f, none) }

/-- what stands behind one dash -/
def takeRow (g : Grammar) (a : Arguments) : List Char → Except Usage Arguments
  | [] => .ok a
  | c :: rest =>
    match g.ofShort? c with
    | none => .error .unknownArgument
    | some (.flag f) => do takeRow g (← a.raise f) rest
    | some (.field f) =>
      match rest with
      | [] => a.take f none
      | '=' :: value => a.take f (some (String.ofList value))
      | value => a.take f (some (String.ofList value))

/-- what stands behind two dashes -/
def takeLong (g : Grammar) (a : Arguments) (s : List Char) : Except Usage Arguments :=
  let name := String.ofList (s.takeWhile (· != '='))
  let value := match s.dropWhile (· != '=') with
    | _ :: v => some (String.ofList v)
    | [] => none
  match g.ofLong? name, value with
  | none, _ => .error .unknownArgument
  | some (.flag f), none => a.raise f
  | some (.flag _), some _ => .error .tooManyValues
  | some (.field f), v => a.take f v

/-- an argument that is no switch -/
def takeProject (g : Grammar) (a : Arguments) (s : String) : Except Usage Arguments :=
  if g.takesProject && !a.hasProject then do
    let a ← a.settle
    return { a with pending := some (.project, some s), hasProject := true }
  else .error .unknownArgument

/-- an argument in front of a lone double dash -/
def takeOne (g : Grammar) (a : Arguments) (s : String) : Except Usage Arguments :=
  match s.toList, a.pending with
  | '-' :: '-' :: long, _ => a.takeLong g long
  | '-' :: c :: row, _ => a.takeRow g (c :: row)
  | _, some (f, none) => .ok { a with pending := some (f, some s) }
  | _, _ => a.takeProject g s

/-- behind a lone double dash there are no switches -/
def read (g : Grammar) (a : Arguments) : List String → Except Usage Arguments
  | [] => a.settle
  | "--" :: rest => do (← rest.foldlM (takeProject g) a).settle
  | s :: rest => do read g (← a.takeOne g s) rest

end Arguments

end VersionFloor
