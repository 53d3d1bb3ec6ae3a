import VersionFloor.Text.Ranges
import VersionFloor.Text.CaseTable

/-!
# Text: lower case

ASCII capitals have a rule, all others come from the table.  Two characters stand out: a capital
sigma becomes the final small sigma at the end of a word, and a capital I with a dot becomes a small
i and a combining dot.
-/

namespace VersionFloor.Text

def asciiLower (c : Char) : Char :=
  if 'A' ≤ c ∧ c ≤ 'Z' then Char.ofNat (c.toNat + 32) else c

/-- equal up to the case of ASCII letters -/
def sameAscii (a b : String) : Bool :=
  a.toList.map asciiLower == b.toList.map asciiLower

/-- whether a text starts with `mark`, up to the case of ASCII letters -/
def startsSame (mark s : List Char) : Bool :=
  (s.take mark.length).map asciiLower == mark.map asciiLower

def CaseRun.holds (r : CaseRun) (n : Nat) : Bool :=
  r.first ≤ n && n ≤ r.last && (n - r.first) % r.step == 0

/-- the small letter of one character, where neighbours do not matter -/
def lowerChar (c : Char) : Char :=
  if c.toNat < 0x80 then asciiLower c
  else match caseRuns.find? (·.holds c.toNat) with
    | some r => Char.ofNat (c.toNat + r.rise).toNat
    | none => c

def isCased (c : Char) : Bool := inRanges c.toNat casedRanges

def isCaseIgnorable (c : Char) : Bool := inRanges c.toNat caseIgnorableRanges

/-- whether the first character that counts is a cased letter -/
def leadsCased (s : List Char) : Bool :=
  match s.dropWhile isCaseIgnorable with
  | c :: _ => isCased c
  | [] => false

/-- `before` holds the characters already passed, the nearest first -/
def lowerFrom (before : List Char) : List Char → List Char
  | [] => []
  | 'Σ' :: rest =>
    (if leadsCased before && !leadsCased rest then 'ς' else 'σ') :: lowerFrom ('Σ' :: before) rest
  | 'İ' :: rest => 'i' :: '\u0307' :: lowerFrom ('İ' :: before) rest
  | c :: rest => lowerChar c :: lowerFrom (c :: before) rest

def lower (s : String) : String := String.ofList (lowerFrom [] s.toList)

end VersionFloor.Text
