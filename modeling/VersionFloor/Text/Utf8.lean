/-!
# Text: UTF-8

`pieces` cuts a byte sequence into characters and faulty pieces; a strict reader refuses the faulty
ones, a lossy reader puts the replacement character in their place.
-/

namespace VersionFloor.Text

abbrev Bytes := List UInt8

def encode (s : String) : Bytes := s.toUTF8.toList

/-- how many bytes follow the first byte of a character -/
def tailCount (b : UInt8) : Option Nat :=
  if b < 0x80 then some 0
  else if b < 0xC2 then none
  else if b < 0xE0 then some 1
  else if b < 0xF0 then some 2
  else if b < 0xF5 then some 3
  else none

/-- the bytes that may come second -/
def secondRange (b : UInt8) : UInt8 × UInt8 :=
  if b = 0xE0 then (0xA0, 0xBF)
  else if b = 0xED then (0x80, 0x9F)
  else if b = 0xF0 then (0x90, 0xBF)
  else if b = 0xF4 then (0x80, 0x8F)
  else (0x80, 0xBF)

/-- `n` more tail bytes of a character whose bits so far are `acc` -/
def takeTails : (n acc : Nat) → Bytes → Option Char × Bytes
  | 0, acc, s => (some (Char.ofNat acc), s)
  | _ + 1, _, [] => (none, [])
  | n + 1, acc, b :: s =>
    if 0x80 ≤ b ∧ b ≤ 0xBF then takeTails n (acc * 64 + (b.toNat - 0x80)) s else (none, b :: s)

/-- one character, or the longest start of one that goes wrong -/
def takePiece (b : UInt8) (s : Bytes) : Option Char × Bytes :=
  match tailCount b with
  | none => (none, s)
  | some 0 => (some (Char.ofNat b.toNat), s)
  | some (n + 1) =>
    match s with
    | [] => (none, [])
    | c :: rest =>
      if (secondRange b).1 ≤ c ∧ c ≤ (secondRange b).2 then
        takeTails n (b.toNat % (32 >>> n) * 64 + (c.toNat - 0x80)) rest
      else (none, s)

theorem takeTails_length (n acc : Nat) (s : Bytes) : (takeTails n acc s).2.length ≤ s.length := by
  induction n generalizing acc s with
  | zero => simp [takeTails]
  | succ n ih =>
    cases s with
    | nil => simp [takeTails]
    | cons b s =>
      rw [takeTails]
      split
      · exact Nat.le_trans (ih _ _) (by simp)
      · simp

theorem takePiece_length (b : UInt8) (s : Bytes) : (takePiece b s).2.length ≤ s.length := by
  unfold takePiece
  split
  · simp
  · simp
  · split
    · simp
    · split
      · exact Nat.le_trans (takeTails_length _ _ _) (by simp)
      · simp

/-- a faulty piece is `none` -/
def pieces : Bytes → List (Option Char)
  | [] => []
  | b :: s => (takePiece b s).1 :: pieces (takePiece b s).2
termination_by s => s.length
decreasing_by exact Nat.lt_succ_of_le (takePiece_length b s)

def decode? (s : Bytes) : Option String := ((pieces s).mapM id).map String.ofList

def decodeLossy (s : Bytes) : List Char := (pieces s).map (·.getD '\uFFFD')

end VersionFloor.Text
