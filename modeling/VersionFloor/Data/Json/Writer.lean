import VersionFloor.Data.Value
import VersionFloor.Text.Quoted

/-!
# JSON: writing values

A text is laid out with one item on a line and two spaces for each level.
-/

namespace VersionFloor.Data.Json

open Text

def escapeChar (c : Char) : List Char :=
  match c with
  | '"' => ['\\', '"']
  | '\\' => ['\\', '\\']
  | '\x08' => ['\\', 'b']
  | '\x0c' => ['\\', 'f']
  | '\n' => ['\\', 'n']
  | '\r' => ['\\', 'r']
  | '\t' => ['\\', 't']
  | c =>
    if c.toNat < 0x20 then
      ['\\', 'u', '0', '0', hexDigit (c.toNat / 16), hexDigit (c.toNat % 16)]
    else [c]

def writeText (s : String) : List Char := '"' :: s.toList.flatMap escapeChar ++ ['"']

/-- a key that is no text is written by the text of its number, or empty -/
def writeKey : Value → List Char
  | .text s => writeText s
  | .number n => writeText n.text
  | _ => writeText ""

def newLine (indent : Nat) : List Char := '\n' :: List.replicate indent ' '

mutual

def write (indent : Nat) : Value → List Char
  | .null => "null".toList
  | .bool b => (if b then "true" else "false").toList
  | .number n => n.text.toList
  | .text s => writeText s
  | .list [] => ['[', ']']
  | .list (v :: vs) => '[' :: newLine (indent + 2) ++ write (indent + 2) v ++
      writeItems (indent + 2) vs ++ newLine indent ++ [']']
  | .record [] => ['\x7b', '\x7d']
  | .record ((k, v) :: fs) => '\x7b' :: newLine (indent + 2) ++ writeKey k ++ [':', ' '] ++
      write (indent + 2) v ++ writeFields (indent + 2) fs ++ newLine indent ++ ['\x7d']

/-- the items after the first -/
def writeItems (indent : Nat) : List Value → List Char
  | [] => []
  | v :: vs => ',' :: newLine indent ++ write indent v ++ writeItems indent vs

/-- the fields after the first -/
def writeFields (indent : Nat) : List (Value × Value) → List Char
  | [] => []
  | (k, v) :: fs => ',' :: newLine indent ++ writeKey k ++ [':', ' '] ++ write indent v ++
      writeFields indent fs

end

def pretty (v : Value) : String := String.ofList (write 0 v)

end VersionFloor.Data.Json
