import VersionFloor.Data.Value
import VersionFloor.Text.Digits
import VersionFloor.Text.Word

/-!
# JSON: tokens

`tokens` reads the whole text, `none` when some part of it is no token.
-/

namespace VersionFloor.Data.Json

open Decimal Text

inductive Token where
  | openList
  | closeList
  | openRecord
  | closeRecord
  | comma
  | colon
  | null
  | bool (b : Bool)
  | number (n : Number)
  | text (s : List Char)
  deriving Repr

def isSpace (c : Char) : Bool := c == ' ' || c == '\t' || c == '\n' || c == '\r'

/-! ### texts -/

def unit? (a b c d : Char) : Option Nat := digitsOf? 16 [a, b, c, d]

def isHighUnit (n : Nat) : Bool := 0xD800 ≤ n && n < 0xDC00
def isLowUnit (n : Nat) : Bool := 0xDC00 ≤ n && n < 0xE000

def pairChar (high low : Nat) : Char :=
  Char.ofNat (0x10000 + (high - 0xD800) * 0x400 + (low - 0xDC00))

/-- the characters that stand for one other after a backslash -/
def shortEscape? : Char → Option Char
  | '"' => some '"'
  | '\\' => some '\\'
  | '/' => some '/'
  | 'b' => some '\x08'
  | 'f' => some '\x0c'
  | 'n' => some '\n'
  | 'r' => some '\r'
  | 't' => some '\t'
  | _ => none

/-- the characters up to the closing quote, and what follows it -/
def takeText : List Char → Option (List Char × List Char)
  | [] => none
  | '"' :: rest => some ([], rest)
  | '\\' :: 'u' :: a :: b :: c :: d :: '\\' :: 'u' :: a' :: b' :: c' :: d' :: rest =>
    match unit? a b c d, unit? a' b' c' d' with
    | some n, some n' =>
      if isHighUnit n then
        if isLowUnit n' then (takeText rest).map fun (s, r) => (pairChar n n' :: s, r) else none
      else if isLowUnit n then none
      else (takeText ('\\' :: 'u' :: a' :: b' :: c' :: d' :: rest)).map
        fun (s, r) => (Char.ofNat n :: s, r)
    | _, _ => none
  | '\\' :: 'u' :: a :: b :: c :: d :: rest =>
    match unit? a b c d with
    | some n =>
      if isHighUnit n || isLowUnit n then none
      else (takeText rest).map fun (s, r) => (Char.ofNat n :: s, r)
    | none => none
  | '\\' :: c :: rest =>
    match shortEscape? c with
    | some e => (takeText rest).map fun (s, r) => (e :: s, r)
    | none => none
  | c :: rest =>
    if c.toNat < 0x20 ∨ c = '\\' then none else (takeText rest).map fun (s, r) => (c :: s, r)

/-! ### numbers -/

def digitValue (c : Char) : Nat := c.toNat - 48

def largestWord : Nat := 0xFFFFFFFFFFFFFFFF

/-- exponents stay below this -/
def exponentLimit : Nat := 0x80000000

/-- as many digits as fit a 64 bit word, how many those are, and the digits left over -/
def takeWord (acc count : Nat) : List Char → Nat × Nat × List Char
  | [] => (acc, count, [])
  | c :: rest =>
    if isAsciiDigit c ∧ acc * 10 + digitValue c ≤ largestWord then
      takeWord (acc * 10 + digitValue c) (count + 1) rest
    else (acc, count, c :: rest)

/-- divides by `10 ^ 308` while the power is out of the table's range -/
def scaleDown (f : Binary) (power : Nat) : (fuel : Nat) → Option Binary
  | 0 => some Binary.zero
  | fuel + 1 =>
    if power ≤ 308 then (Binary.ofDecimal? 1 power).bind f.div?
    else if f.mantissa = 0 then some f
    else do scaleDown (← f.div? (← Binary.ofDecimal? 1 308)) (power - 308) fuel

/-- `word * 10 ^ power`, each factor rounded on its own and the product once more -/
def assemble? (word : Nat) (power : Int) : Option Binary := do
  let f ← Binary.ofNat? word
  if power < 0 then scaleDown f power.natAbs (power.natAbs / 308 + 2)
  else if power ≤ 308 then f.mul? (← Binary.ofDecimal? 1 power)
  else if f.mantissa = 0 then some f
  else none

/-- the digits of an exponent; one that does not fit 31 bits counts as the largest -/
def exponentValue (ds : List Char) : Nat :=
  ds.foldl (fun n c => min (n * 10 + digitValue c) exponentLimit) 0

/-- the part from `e` on; gives the value and what follows it -/
def takeExponent (negative : Bool) (word : Nat) (power : Int) (s : List Char) :
    Option (Double × List Char) :=
  let (down, s) := match s with
    | '+' :: r => (false, r)
    | '-' :: r => (true, r)
    | s => (false, s)
  let ds := s.takeWhile isAsciiDigit
  let rest := s.dropWhile isAsciiDigit
  if ds = [] then none
  else
    let e := exponentValue ds
    if e = exponentLimit then
      if word ≠ 0 ∧ ¬ down then none else some (.finite negative Binary.zero, rest)
    else
      (assemble? word (if down then power - e else power + e)).map
        fun b => (.finite negative b, rest)

def takeExponent? (negative : Bool) (word : Nat) (power : Int) (s : List Char) :
    Option (Double × List Char) :=
  match s with
  | 'e' :: r => takeExponent negative word power r
  | 'E' :: r => takeExponent negative word power r
  | s => (assemble? word power).map fun b => (.finite negative b, s)

/-- the part after the point; digits that no longer fit the word are dropped -/
def takeFraction (negative : Bool) (word : Nat) (power : Int) (s : List Char) :
    Option (Double × List Char) :=
  match s with
  | [] => none
  | c :: _ =>
    if isAsciiDigit c then
      let (w, n, rest) := takeWord word 0 s
      takeExponent? negative w (power - n) (rest.dropWhile isAsciiDigit)
    else none

/-- the number whose first digit is at the head of `s` -/
def takeMagnitude (negative : Bool) (s : List Char) : Option (Number × List Char) :=
  let (word, count, rest) := takeWord 0 0 s
  if count = 0 then none
  else if s.head? = some '0' ∧ count ≠ 1 then none
  else
    let long := rest.takeWhile isAsciiDigit
    let after := rest.dropWhile isAsciiDigit
    match after with
    | '.' :: r => (takeFraction negative word long.length r).map fun (d, r) => (.double d, r)
    | _ =>
      if long ≠ [] ∨ after.head? = some 'e' ∨ after.head? = some 'E' then
        (takeExponent? negative word long.length after).map fun (d, r) => (.double d, r)
      else if ¬ negative then some (.natural word, after)
      else if 0 < word ∧ word ≤ 0x8000000000000000 then some (.negative word, after)
      else (Binary.ofNat? word).map fun b => (.double (.finite true b), after)

/-! ### tokens -/

/-- one token and what follows it -/
def takeToken : List Char → Option (Token × List Char)
  | [] => none
  | '[' :: r => some (.openList, r)
  | ']' :: r => some (.closeList, r)
  | '\x7b' :: r => some (.openRecord, r)
  | '\x7d' :: r => some (.closeRecord, r)
  | ',' :: r => some (.comma, r)
  | ':' :: r => some (.colon, r)
  | 'n' :: 'u' :: 'l' :: 'l' :: r => some (.null, r)
  | 't' :: 'r' :: 'u' :: 'e' :: r => some (.bool true, r)
  | 'f' :: 'a' :: 'l' :: 's' :: 'e' :: r => some (.bool false, r)
  | '"' :: r => (takeText r).map fun (s, r) => (.text s, r)
  | '-' :: r => (takeMagnitude true r).map fun (n, r) => (.number n, r)
  | s => (takeMagnitude false s).map fun (n, r) => (.number n, r)

/-- all tokens; `fuel` bounds their number -/
def tokensFrom : (fuel : Nat) → List Char → Option (List Token)
  | 0, _ => none
  | fuel + 1, s =>
    match s.dropWhile isSpace with
    | [] => some []
    | s => do
      let (t, r) ← takeToken s
      return t :: (← tokensFrom fuel r)

/-- every token has a character at least, so the length of the text is fuel enough -/
def tokens (s : List Char) : Option (List Token) := tokensFrom (s.length + 1) s

end VersionFloor.Data.Json
