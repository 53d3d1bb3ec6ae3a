import Mathlib.Data.List.TakeWhile
import VersionFloor.Text.Blank
import VersionFloor.Text.Case
import VersionFloor.Text.Word

/-!
# Text: how the classes of characters lie to each other

No blank is a word character, and what is a letter in lower case is a letter.
-/

namespace VersionFloor.Text

/-! ### blanks -/

/-- all blanks -/
def blanks : List Char :=
  [9, 10, 11, 12, 13, 0x20, 0x85, 0xA0, 0x1680, 0x2000, 0x2001, 0x2002, 0x2003, 0x2004, 0x2005,
    0x2006, 0x2007, 0x2008, 0x2009, 0x200A, 0x2028, 0x2029, 0x202F, 0x205F, 0x3000].map Char.ofNat

theorem mem_blanks {c : Char} (h : isBlank c = true) : c ∈ blanks := by
  have hc : Char.ofNat c.toNat = c := Char.ofNat_toNat c
  refine List.mem_map.mpr ⟨c.toNat, ?_, hc⟩
  simp only [isBlank, Bool.or_eq_true, Bool.and_eq_true, decide_eq_true_eq, beq_iff_eq] at h
  simp only [List.mem_cons, List.not_mem_nil, or_false]
  omega

/-- a class without blanks -/
theorem of_isBlank {p : Char → Bool} (hall : blanks.all (!p ·) = true) {c : Char}
    (h : isBlank c = true) : p c = false := by
  have hc := List.all_eq_true.mp hall c (mem_blanks h)
  rw [Bool.not_eq_true'] at hc
  exact hc

theorem isWord_of_isBlank {c : Char} (h : isBlank c = true) : isWord c = false :=
  of_isBlank (by decide +kernel) h

/-! ### letters -/

theorem isAsciiLetter_of_asciiLower {c : Char} (h : isAsciiLetter (asciiLower c) = true) :
    isAsciiLetter c = true := by
  unfold asciiLower at h
  split at h
  · rename_i hc
    rw [isAsciiLetter, decide_eq_true hc.1, decide_eq_true hc.2]
    simp
  · exact h

theorem isAsciiWord_of_isAsciiLetter {c : Char} (h : isAsciiLetter c = true) :
    isAsciiWord c = true := by rw [isAsciiWord, h, Bool.true_or, Bool.true_or]

theorem isWord_of_isAsciiLetter {c : Char} (h : isAsciiLetter c = true) : isWord c = true := by
  have hlt : c.toNat < 0x80 := by
    simp only [isAsciiLetter, Bool.or_eq_true, Bool.and_eq_true, decide_eq_true_eq] at h
    rcases h with ⟨_, h⟩ | ⟨_, h⟩
    · exact Nat.lt_of_le_of_lt h (by decide)
    · exact Nat.lt_of_le_of_lt h (by decide)
  rw [isWord, if_pos hlt]
  exact isAsciiWord_of_isAsciiLetter h

/-! ### digits -/

theorem isAsciiDigit_of_isBlank {c : Char} (h : isBlank c = true) : isAsciiDigit c = false :=
  of_isBlank (by decide +kernel) h

theorem isBlank_of_isAsciiDigit {c : Char} (h : isAsciiDigit c = true) : isBlank c = false := by
  cases hb : isBlank c with
  | false => rfl
  | true =>
    rw [isAsciiDigit_of_isBlank hb] at h
    cases h

theorem ne_of_isAsciiDigit {c d : Char} (hc : isAsciiDigit c = true) (hd : isAsciiDigit d = false) :
    c ≠ d := by
  rintro rfl
  rw [hc] at hd
  cases hd

end VersionFloor.Text
