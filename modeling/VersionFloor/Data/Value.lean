import VersionFloor.Decimal.Shortest

/-!
# Plain data: what a text says

A JSON text and a YAML text say the same kind of data.  A record keeps its fields in the order they
are written, repeated ones included, and its keys may be any value.
-/

namespace VersionFloor.Data

open Decimal

/-- `negative n` is an integer written with a minus sign, `n` its size -/
inductive Number where
  | natural (n : Nat)
  | negative (n : Nat)
  | double (d : Double)
  deriving DecidableEq, Repr

inductive Value where
  | null
  | bool (b : Bool)
  | number (n : Number)
  | text (s : String)
  | list (items : List Value)
  | record (fields : List (Value × Value))
  deriving Repr

/-- a negative integer loses its last digits when they do not fit a double -/
def Number.text : Number → String
  | .natural n => toString n
  | .negative n =>
    if n = 0 then "0"
    else "-" ++ ((Binary.ofNat? n).map Binary.text).getD "inf"
  | .double d => d.text

end VersionFloor.Data
