import VersionFloor.Data.Yaml.Cursor
import VersionFloor.Text.Digits

/-!
# YAML: scalars in their written forms

A scalar is plain, between quotes, or a block of lines.  Line breaks inside plain and quoted scalars
are folded: one becomes a space, of several the first is dropped.
-/

namespace VersionFloor.Data.Yaml

open Text

/-! ### gaps between words -/

structure Gap where
  /-- the pads before the first break -/
  pads : List Char
  breaks : List (List Char)

namespace Gap

def empty : Gap := ⟨[], []⟩

/-- the gap behind a break that a backslash hides -/
def hidden : Gap := ⟨[], [[]]⟩

def isBroken (g : Gap) : Bool := !g.breaks.isEmpty

def text (g : Gap) : List Char :=
  match g.breaks with
  | [] => g.pads
  | lead :: trail =>
    if lead = ['\n'] then (if trail.flatten = [] then [' '] else trail.flatten)
    else lead ++ trail.flatten

end Gap

/-- Pads and breaks up to the next word.  A tab may not stand left of `indent` on a line of its
own. -/
def takeGap (indent : Nat) : (fuel : Nat) → Gap → Cursor → Option (Gap × Cursor)
  | 0, _, _ => none
  | fuel + 1, g, c =>
    match c.peek with
    | none => some (g, c)
    | some ch =>
      if isPad ch then
        if g.isBroken then
          if ch = '\t' ∧ c.column < indent then none else takeGap indent fuel g (c.skip 1)
        else takeGap indent fuel { g with pads := g.pads ++ [ch] } (c.skip 1)
      else if isBreak ch then
        takeGap indent fuel ⟨[], g.breaks ++ [c.breakText]⟩ c.skipBreak
      else some (g, c)

/-! ### plain scalars -/

def endsFlow (c : Char) : Bool := c == ',' || c == '[' || c == ']' || c == '\x7b' || c == '\x7d'

/-- One word.  A colon ends it before a gap only; inside brackets a colon may not stand before a
bracket or a comma. -/
def takeWord (inFlow : Bool) : (fuel : Nat) → Cursor → Option (List Char × Cursor)
  | 0, _ => none
  | fuel + 1, c =>
    match c.peek with
    | none => some ([], c)
    | some ch =>
      let next := c.peekAt 1
      if isGap (some ch) then some ([], c)
      else if inFlow && ch == ':' && next.any (fun n => endsFlow n || n == '?') then none
      else if (ch == ':' && isGap next) || (inFlow && endsFlow ch) then some ([], c)
      else (takeWord inFlow fuel (c.skip 1)).map fun (s, c) => (ch :: s, c)

/-- the words behind a gap; tells too whether the scalar ends behind a break -/
def takePlainFrom (inFlow : Bool) (indent : Nat) :
    (fuel : Nat) → Gap → Cursor → Option (List Char × Bool × Cursor)
  | 0, _, _ => none
  | fuel + 1, gap, c =>
    if c.hasDocumentMark || c.peek == some '#' then some ([], gap.isBroken, c)
    else do
      let (word, c) ← takeWord inFlow (c.rest.length + 1) c
      if word.isEmpty then return ([], gap.isBroken, c)
      let s := gap.text ++ word
      if !(c.peeks fun ch => isPad ch || isBreak ch) then return (s, false, c)
      let (gap, c) ← takeGap indent (c.rest.length + 1) .empty c
      if !inFlow && c.column < indent then return (s, gap.isBroken, c)
      let (more, broken, c) ← takePlainFrom inFlow indent fuel gap c
      return (s ++ more, broken, c)

def takePlain (inFlow : Bool) (indent : Nat) (c : Cursor) : Option (List Char × Bool × Cursor) :=
  takePlainFrom inFlow indent (c.rest.length + 1) .empty c

/-! ### quoted scalars -/

/-- the characters that stand for one other after a backslash -/
def shortEscape? : Char → Option Char
  | '0' => some '\x00'
  | 'a' => some '\x07'
  | 'b' => some '\x08'
  | 't' => some '\t'
  | '\t' => some '\t'
  | 'n' => some '\n'
  | 'v' => some '\x0b'
  | 'f' => some '\x0c'
  | 'r' => some '\r'
  | 'e' => some '\x1b'
  | ' ' => some ' '
  | '"' => some '"'
  | '/' => some '/'
  | '\\' => some '\\'
  | 'N' => some '\u0085'
  | '_' => some '\u00a0'
  | 'L' => some '\u2028'
  | 'P' => some '\u2029'
  | _ => none

/-- how many hexadecimal digits follow -/
def escapeWidth? : Char → Option Nat
  | 'x' => some 2
  | 'u' => some 4
  | 'U' => some 8
  | _ => none

/-- the character of an escape that starts with `ch`, and the length of the escape -/
def takeEscape (ch : Char) (c : Cursor) : Option (Char × Nat) :=
  match shortEscape? ch with
  | some e => some (e, 2)
  | none => do
    let width ← escapeWidth? ch
    let ds := (c.rest.drop 2).take width
    if ds.length < width then none
    else
      let n ← digitsOf? 16 ds
      if n.isValidChar then some (Char.ofNat n, 2 + width) else none

/-- The characters up to a gap or to the closing quote, and the gap as far as a hidden break has
begun it. -/
def takeQuotedWord (quote : Char) : (fuel : Nat) → Cursor → Option (List Char × Gap × Cursor)
  | 0, _ => none
  | fuel + 1, c =>
    let next := c.peekAt 1
    match c.peek with
    | none => some ([], .empty, c)
    | some ch =>
      if isGap (some ch) then some ([], .empty, c)
      else if ch = quote ∧ (quote = '"' ∨ next ≠ some quote) then some ([], .empty, c)
      else if ch = '\\' ∧ quote = '"' then
        if next.any isBreak then some ([], .hidden, (c.skip 1).skipBreak)
        else do
          let (e, n) ← takeEscape (← next) c
          let (s, g, c) ← takeQuotedWord quote fuel (c.skip n)
          return (e :: s, g, c)
      else do
        let (s, g, c) ← takeQuotedWord quote fuel (c.skip (if ch = quote then 2 else 1))
        return (ch :: s, g, c)

/-- what stands between the quotes; a document may not end inside -/
def takeQuotedFrom (quote : Char) : (fuel : Nat) → Cursor → Option (List Char × Cursor)
  | 0, _ => none
  | fuel + 1, c =>
    if c.hasDocumentMark || c.peek.isNone then none
    else do
      let (word, gap, c) ← takeQuotedWord quote (c.rest.length + 1) c
      if c.peek = some quote then return (word, c.skip 1)
      let (gap, c) ← takeGap 0 (c.rest.length + 1) gap c
      let (more, c) ← takeQuotedFrom quote fuel c
      return (word ++ gap.text ++ more, c)

/-- a scalar whose opening quote stands at the cursor -/
def takeQuoted (quote : Char) (c : Cursor) : Option (List Char × Cursor) :=
  takeQuotedFrom quote (c.rest.length + 1) (c.skip 1)

/-! ### blocks of lines -/

/-- what happens to the breaks at the end of a block -/
inductive Chomp where
  | clip
  | strip
  | keep
  deriving DecidableEq

def chompOf? : Option Char → Option Chomp
  | some '-' => some .strip
  | some '+' => some .keep
  | _ => none

/-- a digit for the indentation, zero when there is none; it may not be written as zero -/
def takeIncrement (c : Cursor) : Option (Nat × Cursor) :=
  match c.peek with
  | some ch =>
    if ch = '0' then none
    else if isAsciiDigit ch then some (ch.toNat - 48, c.skip 1)
    else some (0, c)
  | none => some (0, c)

/-- what follows the opening character of a block, in either order -/
def takeHeader (c : Cursor) : Option (Chomp × Nat × Cursor) :=
  match chompOf? c.peek with
  | some chomp => do
    let (n, c) ← takeIncrement (c.skip 1)
    return (chomp, n, c)
  | none => do
    let (n, c) ← takeIncrement c
    match chompOf? c.peek with
    | some chomp => if n = 0 then return (.clip, n, c) else return (chomp, n, c.skip 1)
    | none => return (.clip, n, c)

/-- Blank lines and the indentation of the next one.  While `indent` is zero it is not known yet;
`widest` is the widest indentation so far. -/
def takeBlankLines (indent : Nat) : (fuel widest : Nat) → Cursor → Option (List Char × Nat × Cursor)
  | 0, _, _ => none
  | fuel + 1, widest, c =>
    let inside (c : Cursor) : Bool := indent == 0 || c.column < indent
    let spaces := (c.rest.takeWhile (· == ' ')).length
    let c := c.skip (if indent = 0 then spaces else min spaces (indent - c.column))
    let widest := max widest c.column
    match c.peek with
    | none => some ([], widest, c)
    | some ch =>
      if inside c ∧ ch = '\t' then none
      else if isBreak ch then
        (takeBlankLines indent fuel widest c.skipBreak).map
          fun (s, w, c') => (c.breakText ++ s, w, c')
      else some ([], widest, c)

/-- The lines of a block behind the breaks `lead` and `trail`, and the breaks at its end.  Lines
that start with a pad keep the breaks around them. -/
def takeLines (literal : Bool) (indent : Nat) :
    (fuel : Nat) → (lead trail : List Char) → (padded : Bool) → Cursor →
      Option (List Char × List Char × List Char × Cursor)
  | 0, _, _, _, _ => none
  | fuel + 1, lead, trail, padded, c =>
    if c.column == indent && c.peek.isSome then do
      let pads := c.peeks isPad
      let joint :=
        if !literal && lead == ['\n'] && !padded && !pads then
          if trail.isEmpty then [' '] else trail
        else lead ++ trail
      let (line, c) := c.span (!isBreak ·)
      let (blank, _, c') ← takeBlankLines indent (c.rest.length + 1) 0 c.skipBreak
      let (more, lead, trail, c') ← takeLines literal indent fuel c.breakText blank pads c'
      return (joint ++ line ++ more, lead, trail, c')
    else some ([], lead, trail, c)

/-- a block whose opening character stands at the cursor, inside the indentation `parent` -/
def takeBlock (literal : Bool) (parent : Int) (c : Cursor) : Option (List Char × Cursor) := do
  let (chomp, increment, c) ← takeHeader (c.skip 1)
  let c ← c.skipLine?
  let given := if increment = 0 then 0 else parent.toNat + increment
  let (blank, widest, c) ← takeBlankLines given (c.rest.length + 1) 0 c
  let indent := if given = 0 then max (max widest (parent + 1).toNat) 1 else given
  let (s, lead, trail, c) ← takeLines literal indent (c.rest.length + 1) [] blank false c
  return (s ++ (if chomp = .strip then [] else lead) ++ (if chomp = .keep then trail else []), c)

end VersionFloor.Data.Yaml
