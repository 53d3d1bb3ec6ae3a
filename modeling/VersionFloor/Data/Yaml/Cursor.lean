import VersionFloor.Text.Word

/-!
# YAML: a place in a text

Lines and columns are counted from zero, and a return with a line feed is one break.
-/

namespace VersionFloor.Data.Yaml

open Text

/-- a space or a tab -/
def isPad (c : Char) : Bool := c == ' ' || c == '\t'

def isBreak (c : Char) : Bool :=
  c == '\r' || c == '\n' || c == '\u0085' || c == '\u2028' || c == '\u2029'

/-- whether no word goes on there; the end of the text counts -/
def isGap : Option Char → Bool
  | none => true
  | some c => isPad c || isBreak c

/-- the characters of anchors, handles and directives -/
def isNameChar (c : Char) : Bool := isAsciiWord c || c == '-'

/-- the characters that a text may hold at all -/
def isAllowed (c : Char) : Bool :=
  let n := c.toNat
  n == 0x09 || n == 0x0A || n == 0x0D || (0x20 ≤ n && n ≤ 0x7E) || n == 0x85 ||
    (0xA0 ≤ n && n ≤ 0xFFFD && n != 0xFEFF) || 0x10000 ≤ n

structure Cursor where
  rest : List Char
  index : Nat
  line : Nat
  column : Nat

namespace Cursor

def start (s : List Char) : Cursor := ⟨s, 0, 0, 0⟩

def peek (c : Cursor) : Option Char := c.rest.head?

def peekAt (c : Cursor) (n : Nat) : Option Char := c.rest[n]?

def peeks (c : Cursor) (p : Char → Bool) : Bool := c.peek.any p

/-- moves over characters that are no breaks -/
def skip (c : Cursor) (n : Nat) : Cursor := ⟨c.rest.drop n, c.index + n, c.line, c.column + n⟩

def skipBreak (c : Cursor) : Cursor :=
  match c.rest with
  | '\r' :: '\n' :: rest => ⟨rest, c.index + 2, c.line + 1, 0⟩
  | _ :: rest => ⟨rest, c.index + 1, c.line + 1, 0⟩
  | [] => c

/-- what the break at this place stands for -/
def breakText (c : Cursor) : List Char :=
  match c.peek with
  | none => []
  | some '\u2028' => ['\u2028']
  | some '\u2029' => ['\u2029']
  | some _ => ['\n']

def span (p : Char → Bool) (c : Cursor) : List Char × Cursor :=
  let s := c.rest.takeWhile p
  (s, c.skip s.length)

def skipWhile (p : Char → Bool) (c : Cursor) : Cursor := (c.span p).2

/-- the rest of the line when it is a comment -/
def skipComment (c : Cursor) : Cursor :=
  if c.peek = some '#' then c.skipWhile (!isBreak ·) else c

/-- the rest of a line, which may hold pads and a comment only -/
def skipLine? (c : Cursor) : Option Cursor :=
  let c := (c.skipWhile isPad).skipComment
  match c.peek with
  | none => some c
  | some ch => if isBreak ch then some c.skipBreak else none

/-- whether a mark of three characters stands alone at the start of a line -/
def hasMark (c : Cursor) (mark : List Char) : Bool :=
  c.column == 0 && mark.isPrefixOf c.rest && isGap (c.peekAt 3)

def startMark : List Char := ['-', '-', '-']

def endMark : List Char := ['.', '.', '.']

def hasDocumentMark (c : Cursor) : Bool := c.hasMark startMark || c.hasMark endMark

end Cursor

end VersionFloor.Data.Yaml
