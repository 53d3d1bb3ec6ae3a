import VersionFloor.Text.Ranges
import VersionFloor.Text.EscapeTable

/-!
# Text: quoted texts in messages

Between the double quotes every character can be seen.
-/

namespace VersionFloor.Text

def hexDigit (n : Nat) : Char :=
  if n < 10 then Char.ofNat (48 + n) else Char.ofNat (87 + n)

/-- hexadecimal digits without leading zeros, small letters; `fuel` bounds their number -/
def hexDigits (n : Nat) : (fuel : Nat) → List Char
  | 0 => []
  | fuel + 1 => (if n < 16 then [] else hexDigits (n / 16) fuel) ++ [hexDigit (n % 16)]

def codeEscape (c : Char) : List Char :=
  ['\\', 'u', '\x7b'] ++ hexDigits c.toNat 6 ++ ['\x7d']

def needsCode (c : Char) : Bool :=
  inRanges c.toNat unprintableRanges || inRanges c.toNat extendingRanges

def quoteChar (c : Char) : List Char :=
  match c with
  | '\x00' => ['\\', '0']
  | '\t' => ['\\', 't']
  | '\r' => ['\\', 'r']
  | '\n' => ['\\', 'n']
  | '"' => ['\\', '"']
  | '\\' => ['\\', '\\']
  | c => if needsCode c then codeEscape c else [c]

def quoted (s : String) : String :=
  String.ofList ('"' :: s.toList.flatMap quoteChar ++ ['"'])

end VersionFloor.Text
