import VersionFloor.Data.Yaml.Scalar
import VersionFloor.Text.Utf8

/-!
# YAML: tokens

Some of them are spelled out in one piece: names, tags and directives.
-/

namespace VersionFloor.Data.Yaml

open Text

inductive Style where
  | plain
  | quoted
  | literal
  | folded
  deriving DecidableEq, Repr

inductive Token where
  | version (major minor : Nat)
  | handle (name target : String)
  | documentStart
  | documentEnd
  | streamEnd
  | openBlockList
  | openBlockRecord
  | closeBlock
  | openFlowList
  | closeFlowList
  | openFlowRecord
  | closeFlowRecord
  | item
  | comma
  | key
  | value
  | alias (name : String)
  | anchor (name : String)
  | tag (handle suffix : String)
  | scalar (style : Style) (text : String)
  | fault
  deriving DecidableEq, Repr

/-! ### names and tags -/

/-- the name behind `&` or `*` -/
def takeAnchor (c : Cursor) : Option (String × Cursor) :=
  let (name, c) := (c.skip 1).span isNameChar
  let ends := isGap c.peek || c.peeks fun ch => "?:,]\x7d%@`".toList.contains ch
  if name.isEmpty || !ends then none else some (String.ofList name, c)

def isTagChar (wide : Bool) (c : Char) : Bool :=
  isNameChar c || ";/?:@&=+$.%!~*'()".toList.contains c || (wide && ",[]".toList.contains c)

/-- how many bytes a character has whose first byte is `b` -/
def byteCount? (b : Nat) : Option Nat :=
  if b < 0x80 then some 1
  else if b < 0xC0 then none
  else if b < 0xE0 then some 2
  else if b < 0xF0 then some 3
  else if b < 0xF8 then some 4
  else none

/-- the byte of a percent sign and two digits -/
def takeOctet (s : List Char) : Option (Nat × List Char) :=
  match s with
  | '%' :: a :: b :: rest => (digitsOf? 16 [a, b]).map fun n => (n, rest)
  | _ => none

/-- `n` more bytes of a character -/
def takeOctets : (n : Nat) → List Char → Option (Bytes × List Char)
  | 0, s => some ([], s)
  | n + 1, s => do
    let (b, s) ← takeOctet s
    if b < 0x80 ∨ 0xC0 ≤ b then none
    else
      let (bs, s) ← takeOctets n s
      return (b.toUInt8 :: bs, s)

/-- the text of a tag, its escapes resolved -/
def tagText : (fuel : Nat) → List Char → Option (List Char)
  | 0, _ => none
  | fuel + 1, s =>
    match s with
    | [] => some []
    | '%' :: _ => do
      let (b, rest) ← takeOctet s
      let (bs, rest) ← takeOctets ((← byteCount? b) - 1) rest
      return decodeLossy (b.toUInt8 :: bs) ++ (← tagText fuel rest)
    | c :: rest => (tagText fuel rest).map (c :: ·)

/-- the rest of a tag behind `lead`, which counts when it is not empty -/
def takeTagText (wide : Bool) (lead : List Char) (c : Cursor) : Option (List Char × Cursor) := do
  let (raw, c) := c.span (isTagChar wide)
  if lead.isEmpty && raw.isEmpty then none
  else return (lead.drop 1 ++ (← tagText (raw.length + 1) raw), c)

/-- an exclamation mark, a name, and a second mark when there is one -/
def takeHandle (c : Cursor) : Option (List Char × Cursor) :=
  if c.peek = some '!' then
    let (name, c) := (c.skip 1).span isNameChar
    if c.peek = some '!' then some ('!' :: name ++ ['!'], c.skip 1) else some ('!' :: name, c)
  else none

/-- a tag in angle brackets, with a handle, or with neither; a lone mark has no handle -/
def takeTagBody (c : Cursor) : Option (List Char × List Char × Cursor) :=
  if c.peekAt 1 = some '<' then do
    let (suffix, c) ← takeTagText true [] (c.skip 2)
    if c.peek = some '>' then return ([], suffix, c.skip 1) else none
  else do
    let (handle, c) ← takeHandle c
    if 1 < handle.length ∧ handle.getLast? = some '!' then
      let (suffix, c) ← takeTagText false [] c
      return (handle, suffix, c)
    else
      let (suffix, c) ← takeTagText false handle c
      if suffix.isEmpty then return ([], ['!'], c) else return (['!'], suffix, c)

def takeTag (inFlow : Bool) (c : Cursor) : Option (Token × Cursor) := do
  let (handle, suffix, c) ← takeTagBody c
  if isGap c.peek || (inFlow && c.peek == some ',') then
    return (.tag (String.ofList handle) (String.ofList suffix), c)
  else none

/-! ### directives -/

def versionDigits : Nat := 9

def takeVersionNumber (c : Cursor) : Option (Nat × Cursor) :=
  let (ds, c) := c.span isAsciiDigit
  if versionDigits < ds.length then none else (digitsOf? 10 ds).map fun n => (n, c)

def takeVersion (c : Cursor) : Option (Token × Cursor) := do
  let (major, c) ← takeVersionNumber c
  if c.peek ≠ some '.' then none
  else
    let (minor, c) ← takeVersionNumber (c.skip 1)
    return (.version major minor, c)

def takeHandleTarget (c : Cursor) : Option (Token × Cursor) := do
  let (handle, c) ← takeHandle c
  if handle.getLast? ≠ some '!' then none
  else if !(c.peeks isPad) then none
  else
    let (target, c) ← takeTagText true [] (c.skipWhile isPad)
    if isGap c.peek then return (.handle (String.ofList handle) (String.ofList target), c) else none

def takeDirective (c : Cursor) : Option (Token × Cursor) := do
  let (name, c) := (c.skip 1).span isNameChar
  if !isGap c.peek then none
  else
    let c := c.skipWhile isPad
    let (t, c) ← match String.ofList name with
      | "YAML" => takeVersion c
      | "TAG" => takeHandleTarget c
      | _ => none
    return (t, ← c.skipLine?)

end VersionFloor.Data.Yaml
