import Mathlib.Algebra.Group.Nat.Defs
import VersionFloor.Proofs.Text.Utf8

/-!
# Text: reading bytes that need not be UTF-8

A piece is an ASCII byte, or it holds high bytes only and is read as one character beyond ASCII, or
as the replacement character (`takePiece_spec`).  The bytes of a text are read as that text
(`decodeLossy_encodeChars`).
-/

namespace VersionFloor.Text

/-! ### numbers of characters and bytes -/

theorem isAscii_ofNat {n : Nat} (h : n.isValidChar) (hn : 0x80 ≤ n) :
    isAscii (Char.ofNat n) = false := by
  rw [isAscii, toNat_ofNat h]
  exact decide_eq_false (Nat.not_lt.mpr hn)

theorem toNat_byte {n : Nat} (h : n < 0x100) : (UInt8.ofNat n).toNat = n :=
  UInt8.toNat_ofNat_of_lt' h

/-! ### the first bytes of a piece -/

/-- the first bytes of characters with so many tails -/
theorem tailCount_eq_some_iff {b : UInt8} {n : Nat} :
    tailCount b = some n ↔
      n = 0 ∧ b.toNat < 0x80 ∨ n = 1 ∧ 0xC2 ≤ b.toNat ∧ b.toNat < 0xE0 ∨
        n = 2 ∧ 0xE0 ≤ b.toNat ∧ b.toNat < 0xF0 ∨ n = 3 ∧ 0xF0 ≤ b.toNat ∧ b.toNat < 0xF5 := by
  rw [tailCount]
  simp only [UInt8.lt_iff_toNat_lt, UInt8.reduceToNat]
  split_ifs <;> simp only [Option.some.injEq, false_iff] <;> omega

/-- a second byte is a tail, and four first bytes take some of the tails only -/
def IsSecond (b c : UInt8) : Prop :=
  (0x80 ≤ c.toNat ∧ c.toNat ≤ 0xBF) ∧ (b.toNat = 0xE0 → 0xA0 ≤ c.toNat) ∧
    (b.toNat = 0xED → c.toNat ≤ 0x9F) ∧ (b.toNat = 0xF0 → 0x90 ≤ c.toNat) ∧
    (b.toNat = 0xF4 → c.toNat ≤ 0x8F)

theorem secondRange_iff (b c : UInt8) :
    (secondRange b).1 ≤ c ∧ c ≤ (secondRange b).2 ↔ IsSecond b c := by
  rw [secondRange, IsSecond]
  simp only [UInt8.le_iff_toNat_le, ← UInt8.toNat_inj, UInt8.reduceToNat]
  split_ifs <;> simp only [UInt8.reduceToNat] <;> omega

theorem takePiece_ascii {b : UInt8} (h : b.toNat < 0x80) (s : Bytes) :
    takePiece b s = (some (Char.ofNat b.toNat), s) := by
  have hcount : tailCount b = some 0 := tailCount_eq_some_iff.mpr (.inl ⟨rfl, h⟩)
  rw [takePiece, hcount]

theorem takePiece_second {b c : UInt8} {n : Nat} (hcount : tailCount b = some (n + 1))
    (hc : IsSecond b c) (s : Bytes) :
    takePiece b (c :: s) = takeTails n (b.toNat % (32 >>> n) * 64 + (c.toNat - 0x80)) s := by
  rw [takePiece, hcount]
  exact if_pos ((secondRange_iff b c).mpr hc)

theorem takeTails_cons {b : UInt8} (h : 0x80 ≤ b.toNat) (h' : b.toNat ≤ 0xBF) (n acc : Nat)
    (s : Bytes) : takeTails (n + 1) acc (b :: s) = takeTails n (acc * 64 + (b.toNat - 0x80)) s :=
  if_pos ⟨UInt8.le_iff_toNat_le.mpr h, UInt8.le_iff_toNat_le.mpr h'⟩

/-! ### what a piece is read as -/

/-- tails are high bytes, and `n` of them make a number below `64 ^ n` -/
theorem takeTails_spec (n acc : Nat) (s : Bytes) :
    ∃ u, s = u ++ (takeTails n acc s).2 ∧ (∀ b ∈ u, 0x80 ≤ b) ∧
      ∀ c ∈ (takeTails n acc s).1, ∃ t < 64 ^ n, c = Char.ofNat (acc * 64 ^ n + t) := by
  induction n generalizing acc s with
  | zero =>
    refine ⟨[], rfl, by simp, fun c hc => ⟨0, by simp, ?_⟩⟩
    rw [takeTails] at hc
    simpa using hc.symm
  | succ n ih =>
    cases s with
    | nil => exact ⟨[], rfl, by simp, by simp [takeTails]⟩
    | cons b s =>
      rw [takeTails]
      split
      · rename_i hb
        obtain ⟨u, hu, hhigh, hread⟩ := ih (acc * 64 + (b.toNat - 0x80)) s
        refine ⟨b :: u, congrArg (b :: ·) hu, List.forall_mem_cons.mpr ⟨hb.1, hhigh⟩, ?_⟩
        intro c hc
        obtain ⟨t, ht, rfl⟩ := hread c hc
        have hle : b.toNat ≤ 0xBF := UInt8.le_iff_toNat_le.mp hb.2
        have hlast : (b.toNat - 0x80) * 64 ^ n ≤ 63 * 64 ^ n :=
          Nat.mul_le_mul_right _ (by omega)
        refine ⟨(b.toNat - 0x80) * 64 ^ n + t, by rw [Nat.pow_succ]; omega, ?_⟩
        refine congrArg Char.ofNat ?_
        rw [Nat.add_mul, Nat.pow_succ, Nat.mul_assoc, Nat.mul_comm 64, Nat.add_assoc]
      · exact ⟨[], rfl, by simp, by simp⟩

/-- the number that a first byte, a second one and further tails make is that of a character beyond
ASCII -/
theorem isValidChar_of_second {b c : UInt8} {n t : Nat} (hcount : tailCount b = some (n + 1))
    (hc : IsSecond b c) (ht : t < 64 ^ n) :
    ((b.toNat % (32 >>> n) * 64 + (c.toNat - 0x80)) * 64 ^ n + t).isValidChar ∧
      0x80 ≤ (b.toNat % (32 >>> n) * 64 + (c.toNat - 0x80)) * 64 ^ n + t := by
  obtain ⟨htail, hE0, hED, hF0, hF4⟩ := hc
  rw [Nat.isValidChar]
  rcases tailCount_eq_some_iff.mp hcount with ⟨h, -⟩ | ⟨h, hb⟩ | ⟨h, hb⟩ | ⟨h, hb⟩
  · omega
  · obtain rfl : n = 0 := by omega
    simp only [Nat.reduceShiftRight, Nat.reducePow] at *
    omega
  · obtain rfl : n = 1 := by omega
    simp only [Nat.reduceShiftRight, Nat.reducePow] at *
    omega
  · obtain rfl : n = 2 := by omega
    simp only [Nat.reduceShiftRight, Nat.reducePow] at *
    omega

/-- **A piece is an ASCII byte, or high bytes that are read as one character beyond ASCII** or are
at fault. -/
theorem takePiece_spec (b : UInt8) (s : Bytes) :
    b.toNat < 0x80 ∧ takePiece b s = (some (Char.ofNat b.toNat), s) ∨
      0x80 ≤ b ∧ ∃ u, s = u ++ (takePiece b s).2 ∧ (∀ x ∈ u, 0x80 ≤ x) ∧
        ∀ c ∈ (takePiece b s).1, isAscii c = false := by
  by_cases hb : b.toNat < 0x80
  · exact .inl ⟨hb, takePiece_ascii hb s⟩
  refine .inr ⟨UInt8.le_iff_toNat_le.mpr (Nat.not_lt.mp hb), ?_⟩
  have hfault : (∃ u, s = u ++ s ∧ (∀ x ∈ u, (0x80 : UInt8) ≤ x) ∧
      ∀ c ∈ (none : Option Char), isAscii c = false) := ⟨[], rfl, by simp, by simp⟩
  cases hcount : tailCount b with
  | none =>
    rw [takePiece, hcount]
    exact hfault
  | some n =>
    cases n with
    | zero =>
      rcases tailCount_eq_some_iff.mp hcount with h | h | h | h <;> omega
    | succ n =>
      cases s with
      | nil =>
        rw [takePiece, hcount]
        exact hfault
      | cons c s =>
        by_cases hc : IsSecond b c
        · rw [takePiece_second hcount hc]
          obtain ⟨u, hu, hhigh, hread⟩ :=
            takeTails_spec n (b.toNat % (32 >>> n) * 64 + (c.toNat - 0x80)) s
          refine ⟨c :: u, congrArg (c :: ·) hu, List.forall_mem_cons.mpr ⟨?_, hhigh⟩, ?_⟩
          · exact UInt8.le_iff_toNat_le.mpr hc.1.1
          · intro d hd
            obtain ⟨t, ht, rfl⟩ := hread d hd
            obtain ⟨hvalid, hle⟩ := isValidChar_of_second hcount hc ht
            exact isAscii_ofNat hvalid hle
        · rw [takePiece, hcount]
          simp only [if_neg (mt (secondRange_iff b c).mp hc)]
          exact hfault

/-! ### a text from its bytes -/

/-- the bytes of a character are one piece -/
theorem takePiece_encodeChar (c : Char) (rest : Bytes) :
    ∃ b s, String.utf8EncodeChar c ++ rest = b :: s ∧ takePiece b s = (some c, rest) := by
  have hc : Char.ofNat c.val.toNat = c := Char.ofNat_toNat c
  have hvalid : c.val.toNat < 0xD800 ∨ 0xDFFF < c.val.toNat ∧ c.val.toNat < 0x110000 := c.valid
  rw [String.utf8EncodeChar.eq_1]
  generalize c.val.toNat = v at hc hvalid ⊢
  have hread (n : Nat) (h : n = v) : (some (Char.ofNat n), rest) = (some c, rest) := by
    rw [h, hc]
  have hlast := toNat_byte (n := v % 64 + 128) (by omega)
  have hmiddle := toNat_byte (n := v / 64 % 64 + 128) (by omega)
  split_ifs with h1 h2 h3 <;> simp only [List.cons_append, List.nil_append]
  · have hb := toNat_byte (n := v) (by omega)
    refine ⟨_, _, rfl, ?_⟩
    rw [takePiece_ascii (by omega)]
    exact hread _ hb
  · have hb := toNat_byte (n := v / 64 % 32 + 192) (by omega)
    refine ⟨_, _, rfl, ?_⟩
    rw [takePiece_second (n := 0)]
    · exact hread _ (by simp only [hb, hlast, Nat.reduceShiftRight]; omega)
    · exact tailCount_eq_some_iff.mpr (by omega)
    · exact ⟨by omega, by omega, by omega, by omega, by omega⟩
  · have hb := toNat_byte (n := v / 4096 % 16 + 224) (by omega)
    refine ⟨_, _, rfl, ?_⟩
    rw [takePiece_second (n := 1), takeTails_cons]
    · exact hread _ (by simp only [hb, hmiddle, hlast, Nat.reduceShiftRight]; omega)
    · omega
    · omega
    · exact tailCount_eq_some_iff.mpr (by omega)
    · exact ⟨by omega, by omega, by omega, by omega, by omega⟩
  · have hb := toNat_byte (n := v / 262144 % 8 + 240) (by omega)
    have hsecond := toNat_byte (n := v / 4096 % 64 + 128) (by omega)
    refine ⟨_, _, rfl, ?_⟩
    rw [takePiece_second (n := 2), takeTails_cons, takeTails_cons]
    · exact hread _ (by simp only [hb, hsecond, hmiddle, hlast, Nat.reduceShiftRight]; omega)
    · omega
    · omega
    · omega
    · omega
    · exact tailCount_eq_some_iff.mpr (by omega)
    · exact ⟨by omega, by omega, by omega, by omega, by omega⟩

theorem decodeLossy_encodeChars (s : List Char) : decodeLossy (encodeChars s) = s := by
  have hpieces : pieces (encodeChars s) = s.map some := by
    induction s with
    | nil =>
      rw [encodeChars, List.flatMap_nil, pieces]
      rfl
    | cons c s ih =>
      obtain ⟨b, rest, hbytes, hpiece⟩ := takePiece_encodeChar c (encodeChars s)
      rw [encodeChars_cons, hbytes, pieces, hpiece, ih, List.map_cons]
  rw [decodeLossy, hpieces, List.map_map]
  exact List.map_id s

end VersionFloor.Text
