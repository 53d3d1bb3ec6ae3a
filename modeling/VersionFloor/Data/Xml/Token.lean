import VersionFloor.Text.Case
import VersionFloor.Text.Split

/-!
# XML: tokens

Comments and processing instructions are passed over; an element that closes itself gives two
tokens.  Where the text is not well formed the tokens end in `fault`.
-/

namespace VersionFloor.Data.Xml

open Text

inductive Token where
  /-- `rest` is what stands between the name and the end of the tag -/
  | opening (name rest : List Char)
  | closing (name : List Char)
  /-- references not yet resolved -/
  | text (raw : List Char)
  | verbatim (s : List Char)
  | fault
  deriving DecidableEq, Repr

def isSpace (c : Char) : Bool := c == ' ' || c == '\t' || c == '\r' || c == '\n'

def quoteAfter (quote : Option Char) (c : Char) : Option Char :=
  match quote with
  | none => if c = '\'' ∨ c = '"' then some c else none
  | some q => if c = q then none else some q

/-- a tag up to its end; an angle bracket between quotes does not end it -/
def takeTag (quote : Option Char) : List Char → Option (List Char × List Char)
  | [] => none
  | c :: rest =>
    if c = '>' ∧ quote = none then some ([], rest)
    else (takeTag (quoteAfter quote c) rest).map fun (s, r) => (c :: s, r)

/-- what follows a declaration; inner brackets come in pairs -/
def skipDeclaration (depth : Nat) : List Char → Option (List Char)
  | [] => none
  | '<' :: rest => skipDeclaration (depth + 1) rest
  | '>' :: rest => if depth = 0 then some rest else skipDeclaration (depth - 1) rest
  | _ :: rest => skipDeclaration depth rest

/-- an opening tag; a slash at its end closes it at once -/
def tagTokens (tag : List Char) : List Token :=
  let body := if tag.getLast? = some '/' then tag.dropLast else tag
  let name := body.takeWhile (!isSpace ·)
  let start := .opening name (body.dropWhile (!isSpace ·))
  if tag.getLast? = some '/' then [start, .closing name] else [start]

/-- a closing tag may have blanks behind its name -/
def closingName (tag : List Char) : List Char :=
  if tag.all isSpace then tag else (tag.reverse.dropWhile isSpace).reverse

/-- what stands after `<!` -/
def takeBang (s : List Char) : Option (List Token × List Char) :=
  match s with
  | '-' :: '-' :: rest => (splitFirst "-->".toList rest).map fun (_, r) => ([], r)
  | '[' :: _ =>
    match splitFirst "]]>".toList s with
    | some (inner, r) =>
      if startsSame "[CDATA[".toList inner then some ([.verbatim (inner.drop 7)], r) else none
    | none => none
  | _ =>
    match skipDeclaration 0 s with
    | some r =>
      let inner := s.take (s.length - r.length - 1)
      if startsSame "DOCTYPE".toList inner && !(inner.drop 7).all isSpace then some ([], r)
      else none
    | none => none

/-- what stands at an opening bracket -/
def takeMarkup (s : List Char) : Option (List Token × List Char) :=
  match s with
  | '!' :: rest => takeBang rest
  | '/' :: rest => (splitFirst ['>'] rest).map fun (tag, r) => ([.closing (closingName tag)], r)
  | '?' :: '>' :: _ => none
  | '?' :: rest => (splitFirst ['?', '>'] rest).map fun (_, r) => ([], r)
  | s => (takeTag none s).map fun (tag, r) => (tagTokens tag, r)

/-- `fuel` bounds the number of pieces -/
def tokensFrom : (fuel : Nat) → List Char → List Token
  | 0, _ => [.fault]
  | fuel + 1, s =>
    match s with
    | [] => []
    | '<' :: rest =>
      match takeMarkup rest with
      | some (ts, r) => ts ++ tokensFrom fuel r
      | none => [.fault]
    | s => .text (s.takeWhile (· ≠ '<')) :: tokensFrom fuel (s.dropWhile (· ≠ '<'))

/-- a byte order mark in front does not count -/
def withoutMark (s : List Char) : List Char :=
  match s with
  | '\uFEFF' :: rest => rest
  | s => s

def tokens (s : List Char) : List Token := tokensFrom (s.length + 1) (withoutMark s)

end VersionFloor.Data.Xml
