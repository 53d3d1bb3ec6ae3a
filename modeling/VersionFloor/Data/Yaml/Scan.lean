import VersionFloor.Data.Yaml.Token

/-!
# YAML: from a text to its tokens

Indentation opens and closes blocks; a key is marked only when its colon comes, so the mark is put
in front of what has been read.  Where the text goes wrong the tokens end in `fault`, as do those
that still wait for a colon.
-/

namespace VersionFloor.Data.Yaml

open Text


/-- a place where a key may have begun -/
structure Candidate where
  /-- whether the text is wrong when no colon follows -/
  required : Bool
  /-- the number of tokens in front of it -/
  position : Nat
  index : Nat
  line : Nat
  column : Nat

structure Scan where
  cursor : Cursor
  /-- the last token first -/
  tokens : List Token
  count : Nat
  indent : Int
  /-- the indentations around the current one, the innermost first -/
  outer : List Int
  /-- the possible key of every pair of brackets and of the text around them, innermost first -/
  keys : List (Option Candidate)
  keyAllowed : Bool

namespace Scan

def start (s : List Char) : Scan := ⟨.start s, [], 0, -1, [], [none], true⟩

def inFlow (s : Scan) : Bool := 1 < s.keys.length

def emit (t : Token) (s : Scan) : Scan := { s with tokens := t :: s.tokens, count := s.count + 1 }

def insertAt (position : Nat) (t : Token) (s : Scan) : Scan :=
  { s with tokens := s.tokens.insertIdx (s.count - position) t, count := s.count + 1 }

def move (c : Cursor) (s : Scan) : Scan := { s with cursor := c }

def allow (b : Bool) (s : Scan) : Scan := { s with keyAllowed := b }

/-- a token of `n` characters -/
def emitMark (n : Nat) (t : Token) (s : Scan) : Scan := (s.move (s.cursor.skip n)).emit t

/-- the tokens that do not wait for a colon, in order -/
def settled (s : Scan) : List Token :=
  match (s.keys.filterMap (·.map Candidate.position)).min? with
  | some n => s.tokens.reverse.take n
  | none => s.tokens.reverse

/-- a key may not be longer -/
def keyLimit : Nat := 1024

def isStale (c : Cursor) (k : Candidate) : Bool :=
  k.line < c.line || k.index + keyLimit < c.index

/-- gives up the keys that are too long or reach over a line -/
def dropStale (s : Scan) : Option Scan :=
  if s.keys.any (·.any fun k => isStale s.cursor k && k.required) then none
  else some { s with keys := s.keys.map fun k => k.filter (!isStale s.cursor ·) }

/-- gives up the innermost key -/
def dropKey (s : Scan) : Option Scan :=
  match s.keys with
  | some k :: rest => if k.required then none else some { s with keys := none :: rest }
  | _ => some s

/-- a key may begin here -/
def markKey (s : Scan) : Option Scan :=
  if s.keyAllowed then do
    let s ← s.dropKey
    let c := s.cursor
    let k : Candidate := ⟨!s.inFlow && s.indent == c.column, s.count, c.index, c.line, c.column⟩
    return { s with keys := some k :: s.keys.drop 1 }
  else some s

/-- indents to a column and opens a block, in front of the token at `position` if there is one -/
def openBlock (column : Nat) (position : Option Nat) (t : Token) (s : Scan) : Scan :=
  if !s.inFlow && s.indent < column then
    let s := { s with indent := column, outer := s.indent :: s.outer }
    match position with
    | some n => s.insertAt n t
    | none => s.emit t
  else s

/-- the blocks that end before a column: how many there are, and the indentations left -/
def leave (column : Int) : Int → List Int → Nat × Int × List Int
  | indent, [] => (0, indent, [])
  | indent, o :: os =>
    if column < indent then
      let (n, i, r) := leave column o os
      (n + 1, i, r)
    else (0, indent, o :: os)

/-- closes the blocks that are indented beyond a column -/
def closeBlocks (column : Int) (s : Scan) : Scan :=
  if s.inFlow then s
  else
    let (n, indent, outer) := leave column s.indent s.outer
    { s with
      indent, outer
      tokens := List.replicate n .closeBlock ++ s.tokens
      count := s.count + n }

/-- Moves over pads, comments and breaks.  A tab does not count as a pad where a key may begin. -/
def skipLayout : (fuel : Nat) → Scan → Scan
  | 0, s => s
  | fuel + 1, s =>
    let tabs := s.inFlow || !s.keyAllowed
    let c := (s.cursor.skipWhile fun ch => ch == ' ' || (tabs && ch == '\t')).skipComment
    if c.peeks isBreak then
      skipLayout fuel { s with cursor := c.skipBreak, keyAllowed := s.keyAllowed || !s.inFlow }
    else s.move c

/-! ### one token -/

def fetchEnd (s : Scan) : Option Scan := do
  let s ← (s.closeBlocks (-1)).dropKey
  return (s.allow false).emit .streamEnd

def fetchDirective (s : Scan) : Option Scan := do
  let s ← (s.closeBlocks (-1)).dropKey
  let (t, c) ← takeDirective s.cursor
  return ((s.allow false).move c).emit t

def fetchDocumentMark (t : Token) (s : Scan) : Option Scan := do
  let s ← (s.closeBlocks (-1)).dropKey
  return (s.allow false).emitMark 3 t

def fetchOpening (t : Token) (s : Scan) : Option Scan := do
  let s ← s.markKey
  return ({ s with keys := none :: s.keys }.allow true).emitMark 1 t

def fetchClosing (t : Token) (s : Scan) : Option Scan := do
  let s ← s.dropKey
  let s := if s.inFlow then { s with keys := s.keys.drop 1 } else s
  return (s.allow false).emitMark 1 t

def fetchComma (s : Scan) : Option Scan := do
  let s ← s.dropKey
  return (s.allow true).emitMark 1 .comma

/-- brackets do not hold items, but that is for the reader of the tokens to find out -/
def fetchItem (s : Scan) : Option Scan := do
  if !s.inFlow && !s.keyAllowed then none
  else
    let s ← (s.openBlock s.cursor.column none .openBlockList).dropKey
    return (s.allow true).emitMark 1 .item

def fetchKey (s : Scan) : Option Scan := do
  if !s.inFlow && !s.keyAllowed then none
  else
    let s ← (s.openBlock s.cursor.column none .openBlockRecord).dropKey
    return (s.allow (!s.inFlow)).emitMark 1 .key

/-- a colon makes a key of what may be one -/
def fetchValue (s : Scan) : Option Scan :=
  match s.keys with
  | some k :: rest =>
    let s := (s.insertAt k.position .key).openBlock k.column (some k.position) .openBlockRecord
    some (({ s with keys := none :: rest }.allow false).emitMark 1 .value)
  | _ =>
    if !s.inFlow && !s.keyAllowed then none
    else
      let s := s.openBlock s.cursor.column none .openBlockRecord
      some ((s.allow (!s.inFlow)).emitMark 1 .value)

def fetchAnchor (make : String → Token) (s : Scan) : Option Scan := do
  let s ← s.markKey
  let (name, c) ← takeAnchor s.cursor
  return ((s.allow false).move c).emit (make name)

def fetchTag (s : Scan) : Option Scan := do
  let s ← s.markKey
  let (t, c) ← takeTag s.inFlow s.cursor
  return ((s.allow false).move c).emit t

def fetchBlock (literal : Bool) (s : Scan) : Option Scan := do
  let s ← s.dropKey
  let (text, c) ← takeBlock literal s.indent s.cursor
  let style : Style := if literal then .literal else .folded
  return ((s.allow true).move c).emit (.scalar style (String.ofList text))

def fetchQuoted (quote : Char) (s : Scan) : Option Scan := do
  let s ← s.markKey
  let (text, c) ← takeQuoted quote s.cursor
  return ((s.allow false).move c).emit (.scalar .quoted (String.ofList text))

/-- behind a break a key may begin again -/
def fetchPlain (s : Scan) : Option Scan := do
  let s ← s.markKey
  let (text, broken, c) ← takePlain s.inFlow (s.indent + 1).toNat s.cursor
  return ((s.allow broken).move c).emit (.scalar .plain (String.ofList text))

def indicators : List Char := "-?:,[]\x7b\x7d#&*!|>'\"%@`".toList

/-- whether a plain scalar may start with `ch` -/
def startsPlain (inFlow : Bool) (ch : Char) (next : Option Char) : Bool :=
  (!isGap (some ch) && !indicators.contains ch) || (ch == '-' && !next.any isPad) ||
    (!inFlow && (ch == '?' || ch == ':') && !isGap next)

/-- the token that starts with `ch` -/
def fetchAt (s : Scan) (ch : Char) : Option Scan :=
  let c := s.cursor
  let next := c.peekAt 1
  let apart := s.inFlow || isGap next
  if c.column = 0 ∧ ch = '%' then s.fetchDirective
  else if c.hasMark Cursor.startMark then s.fetchDocumentMark .documentStart
  else if c.hasMark Cursor.endMark then s.fetchDocumentMark .documentEnd
  else if ch = '[' then s.fetchOpening .openFlowList
  else if ch = '\x7b' then s.fetchOpening .openFlowRecord
  else if ch = ']' then s.fetchClosing .closeFlowList
  else if ch = '\x7d' then s.fetchClosing .closeFlowRecord
  else if ch = ',' then s.fetchComma
  else if ch = '-' ∧ isGap next then s.fetchItem
  else if ch = '?' ∧ apart then s.fetchKey
  else if ch = ':' ∧ apart then s.fetchValue
  else if ch = '*' then s.fetchAnchor .alias
  else if ch = '&' then s.fetchAnchor .anchor
  else if ch = '!' then s.fetchTag
  else if ch = '|' ∧ !s.inFlow then s.fetchBlock true
  else if ch = '>' ∧ !s.inFlow then s.fetchBlock false
  else if ch = '\'' ∨ ch = '"' then s.fetchQuoted ch
  else if startsPlain s.inFlow ch next then s.fetchPlain
  else none

/-- the next token; tells too whether it is the last -/
def fetch (s : Scan) : Option (Scan × Bool) := do
  let s ← (s.skipLayout (s.cursor.rest.length + 1)).dropStale
  let s := s.closeBlocks s.cursor.column
  match s.cursor.peek with
  | none => return (← s.fetchEnd, true)
  | some ch => return (← s.fetchAt ch, false)

/-- `fuel` bounds the number of tokens -/
def run : (fuel : Nat) → Scan → List Token
  | 0, s => s.settled ++ [.fault]
  | fuel + 1, s =>
    match s.dropStale with
    | none => s.settled ++ [.fault]
    | some s =>
      match s.fetch with
      | none => s.settled ++ [.fault]
      | some (s, true) => s.tokens.reverse
      | some (s, false) => run fuel s

end Scan

/-- every token takes a character at least, but for the last one -/
def tokens (s : String) : List Token :=
  let cs := match s.toList with
    | '\uFEFF' :: rest => rest
    | cs => cs
  if cs.all isAllowed then Scan.run (cs.length + 1) (.start cs) else [.fault]

end VersionFloor.Data.Yaml
