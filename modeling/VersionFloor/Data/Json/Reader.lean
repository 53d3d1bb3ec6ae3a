import VersionFloor.Data.Json.Token

/-!
# JSON: from tokens to a value

The reader takes one token after the other and keeps the lists and records that are still open; a
value nested deeper than `depthLimit` is refused.
-/

namespace VersionFloor.Data.Json

/-- a list or record that is still open; what it holds so far, the last item first -/
inductive Frame where
  | list (items : List Value)
  | record (fields : List (Value × Value)) (key : Value)

inductive State where
  /-- a value must follow -/
  | value (open_ : List Frame)
  /-- just after the opening bracket of a list -/
  | first (open_ : List Frame)
  /-- inside a record, before a key; it may be closed only when nothing stands before -/
  | key (fields : List (Value × Value)) (open_ : List Frame)
  | colon (fields : List (Value × Value)) (key : Value) (open_ : List Frame)
  /-- just after a value -/
  | after (v : Value) (open_ : List Frame)
  /-- after a comma inside a record -/
  | nextKey (fields : List (Value × Value)) (open_ : List Frame)

def depthLimit : Nat := 127

/-- a value begins -/
def State.begin (open_ : List Frame) : Token → Option State
  | .null => some (.after .null open_)
  | .bool b => some (.after (.bool b) open_)
  | .number n => some (.after (.number n) open_)
  | .text s => some (.after (.text (String.ofList s)) open_)
  | .openList => if open_.length < depthLimit then some (.first open_) else none
  | .openRecord => if open_.length < depthLimit then some (.key [] open_) else none
  | _ => none

def State.step : State → Token → Option State
  | .value o, t => State.begin o t
  | .first o, .closeList => some (.after (.list []) o)
  | .first o, t => State.begin (.list [] :: o) t
  | .key fs o, .closeRecord => if fs.isEmpty then some (.after (.record []) o) else none
  | .key fs o, .text k => some (.colon fs (.text (String.ofList k)) o)
  | .key _ _, _ => none
  | .nextKey fs o, .text k => some (.colon fs (.text (String.ofList k)) o)
  | .nextKey _ _, _ => none
  | .colon fs k o, .colon => some (.value (.record fs k :: o))
  | .colon _ _ _, _ => none
  | .after v (.list vs :: o), .comma => some (.value (.list (v :: vs) :: o))
  | .after v (.list vs :: o), .closeList => some (.after (.list (v :: vs).reverse) o)
  | .after v (.record fs k :: o), .comma => some (.nextKey ((k, v) :: fs) o)
  | .after v (.record fs k :: o), .closeRecord => some (.after (.record ((k, v) :: fs).reverse) o)
  | .after _ _, _ => none

def run : State → List Token → Option Value
  | .after v [], [] => some v
  | _, [] => none
  | s, t :: ts => (s.step t).bind (run · ts)

def read? (s : String) : Option Value := (tokens s.toList).bind (run (.value []))

end VersionFloor.Data.Json
