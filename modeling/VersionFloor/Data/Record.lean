import VersionFloor.Data.Value

/-!
# Plain data: fields of records

A field may be left out when it has nothing to say; a reader looks fields up by name, and a name
that comes twice is refused.
-/

namespace VersionFloor.Data

abbrev Fields := List (Value × Value)

namespace Value

def texts (ss : List String) : Value := .list (ss.map .text)

def text? : Value → Option String
  | .text s => some s
  | _ => none

def natural? : Value → Option Nat
  | .number (.natural n) => some n
  | _ => none

def bool? : Value → Option Bool
  | .bool b => some b
  | _ => none

def list? (item? : Value → Option α) : Value → Option (List α)
  | .list vs => vs.mapM item?
  | _ => none

end Value

namespace Fields

/-! ### writing -/

def one (name : String) (v : Value) : Fields := [(.text name, v)]

/-- left out when there is no value -/
def given (name : String) (v : Option Value) : Fields := (v.map (one name)).getD []

/-- left out when the list is empty -/
def unlessEmpty (name : String) (items : List Value) : Fields :=
  if items.isEmpty then [] else one name (.list items)

/-! ### reading -/

def isNamed (name : String) : Value → Bool
  | .text s => s == name
  | _ => false

/-- the value of a field that comes once at most; `none` when it comes twice -/
def get? (name : String) (fs : Fields) : Option (Option Value) :=
  match fs.filter fun (k, _) => isNamed name k with
  | [] => some none
  | [(_, v)] => some (some v)
  | _ => none

def need? (name : String) (value? : Value → Option α) (fs : Fields) : Option α :=
  (get? name fs).bind (·.bind value?)

/-- a field that may be absent or null -/
def may? (name : String) (value? : Value → Option α) (fs : Fields) : Option (Option α) := do
  match ← get? name fs with
  | none => return none
  | some .null => return none
  | some v => return some (← value? v)

/-- a list that is empty when it is absent -/
def items? (name : String) (item? : Value → Option α) (fs : Fields) : Option (List α) := do
  match ← get? name fs with
  | none => return []
  | some v => v.list? item?

end Fields

end VersionFloor.Data
