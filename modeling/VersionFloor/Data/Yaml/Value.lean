import VersionFloor.Data.Value
import VersionFloor.Data.Yaml.Document

/-!
# YAML: the data of a document

Plain scalars without a tag are null, truth values and numbers where they are written like that; all
others are texts, unless a tag says what they are.
-/

namespace VersionFloor.Data.Yaml

open Decimal Text

def isNull (s : String) : Bool := s == "null" || s == "Null" || s == "NULL" || s == "~"

def boolOf? (s : String) : Option Bool :=
  if s = "true" ∨ s = "True" ∨ s = "TRUE" then some true
  else if s = "false" ∨ s = "False" ∨ s = "FALSE" then some false
  else none

/-! ### numbers -/

def isSign (c : Char) : Bool := c == '+' || c == '-'

def withoutSign (s : List Char) : List Char :=
  match s with
  | c :: rest => if isSign c then rest else s
  | [] => []

/-- several digits that start with a zero are no number -/
def isDigitText (s : List Char) : Bool :=
  let s := withoutSign s
  1 < s.length && s.head? == some '0' && s.all isAsciiDigit

/-- the radix that two characters in front of a number name, ten without them -/
def takeRadix (s : List Char) : Nat × List Char :=
  match s with
  | '0' :: 'x' :: rest => (16, rest)
  | '0' :: 'o' :: rest => (8, rest)
  | '0' :: 'b' :: rest => (2, rest)
  | s => (10, s)

def magnitude? (s : List Char) : Option Nat :=
  let (radix, ds) := takeRadix s
  if radix = 10 ∧ isDigitText s then none else digitsOf? radix ds

inductive Whole where
  | fits (n : Number)
  /-- too long for any whole number that data may hold -/
  | tooLong

/-- the least number that 64 bits do not hold -/
def wordLimit : Nat := 0x10000000000000000

/-- the least number that 128 bits do not hold -/
def longLimit : Nat := 0x100000000000000000000000000000000

/-- a whole number that fits 128 bits; only those that fit 64 bits are data -/
def wholeOf? (s : List Char) : Option Whole :=
  match s with
  | '-' :: s => (magnitude? s).bind fun n =>
    if n ≤ wordLimit / 2 then some (.fits (.negative n))
    else if n ≤ longLimit / 2 then some .tooLong
    else none
  | s => (magnitude? (if s.head? = some '+' then s.drop 1 else s)).bind fun n =>
    if n < wordLimit then some (.fits (.natural n))
    else if n < longLimit then some .tooLong
    else none

/-- the power of ten of an exponent part, which may be absent -/
def exponentOf? (s : List Char) : Option Int :=
  match s with
  | [] => some 0
  | c :: rest =>
    if c = 'e' ∨ c = 'E' then
      let ds := withoutSign rest
      if ds.all isAsciiDigit then
        (digitsOf? 10 ds).map fun n => if rest.head? = some '-' then -(n : Int) else n
      else none
    else none

/-- digits with a point among them or not, and an exponent -/
def decimalOf? (s : List Char) : Option Binary :=
  let whole := s.takeWhile isAsciiDigit
  let s := s.dropWhile isAsciiDigit
  let (fraction, s) := match s with
    | '.' :: rest => (rest.takeWhile isAsciiDigit, rest.dropWhile isAsciiDigit)
    | s => ([], s)
  do
    let e ← exponentOf? s
    let n ← digitsOf? 10 (whole ++ fraction)
    Binary.ofDecimal? n (e - fraction.length)

def isInfinity (s : String) : Bool := s == ".inf" || s == ".Inf" || s == ".INF"

def isNoNumber (s : String) : Bool := s == ".nan" || s == ".NaN" || s == ".NAN"

def doubleOf? (s : List Char) : Option Double :=
  if isInfinity (String.ofList (if s.head? = some '+' then s.drop 1 else s)) then
    some (.infinite false)
  else if s.head? = some '-' ∧ isInfinity (String.ofList (s.drop 1)) then some (.infinite true)
  else if isNoNumber (String.ofList s) then some .nan
  else (decimalOf? (withoutSign s)).map fun b => .finite (s.head? = some '-') b

/-! ### scalars -/

/-- a plain scalar; `none` for a number that is too long -/
def plainValue? (s : String) : Option Value :=
  if s = "" ∨ isNull s then some .null
  else match boolOf? s with
    | some b => some (.bool b)
    | none =>
      match wholeOf? s.toList with
      | some (.fits n) => some (.number n)
      | some .tooLong => none
      | none =>
        if isDigitText s.toList then some (.text s)
        else match doubleOf? s.toList with
          | some d => some (.number (.double d))
          | none => some (.text s)

def coreTag (name : String) : String := "tag:yaml.org,2002:" ++ name

/-- a tag that is not global names a type of its own, which is no plain data -/
def isLocal (tag : Option String) : Bool := tag.any fun t => t.toList.head? == some '!'

def scalarValue? (tag : Option String) (style : Style) (s : String) : Option Value :=
  match tag with
  | none => if style = .plain then plainValue? s else some (.text s)
  | some t =>
    if isLocal tag then none
    else if t = coreTag "bool" then (boolOf? s).map .bool
    else if t = coreTag "int" then
      match wholeOf? s.toList with
      | some (.fits n) => some (.number n)
      | _ => none
    else if t = coreTag "float" then (doubleOf? s.toList).map (.number <| .double ·)
    else if t = coreTag "null" then (if isNull s then some .null else none)
    else some (.text s)

/-! ### documents -/

def depthLimit : Nat := 128

/-- how many aliases may be followed for each part of a document -/
def aliasLimit : Nat := 100

/-- the node an alias stands for; the state counts the aliases followed -/
def follow (d : Document) (n : Node) : StateT Nat Option Node := do
  match n with
  | .alias id =>
    let count ← get
    if d.size * aliasLimit < count + 1 then failure
    else
      set (count + 1)
      (d.anchored? id : Option Node)
  | n => pure n

/-- `depth` bounds how deep lists and records may nest -/
def valueIn (d : Document) : (depth : Nat) → Node → StateT Nat Option Value
  | 0, n => do
    match ← follow d n with
    | .scalar _ tag style s => (scalarValue? tag style s : Option Value)
    | _ => failure
  | depth + 1, n => do
    match ← follow d n with
    | .scalar _ tag style s => (scalarValue? tag style s : Option Value)
    | .list _ tag items =>
      if isLocal tag then failure else return .list (← items.mapM (valueIn d depth))
    | .record _ tag pairs =>
      if isLocal tag then failure
      else return .record (← pairs.mapM fun (k, v) =>
        return (← valueIn d depth k, ← valueIn d depth v))
    | .alias _ => failure

def Document.valueOf? (d : Document) (n : Node) : Option Value :=
  ((valueIn d depthLimit n).run 0).map (·.1)

/-- an empty document is null -/
def Document.value? (d : Document) : Option Value :=
  match d.root with
  | none => some .null
  | some n => d.valueOf? n

end VersionFloor.Data.Yaml
