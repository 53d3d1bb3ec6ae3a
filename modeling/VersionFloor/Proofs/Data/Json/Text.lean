import VersionFloor.Data.Json.Token
import VersionFloor.Data.Json.Writer

/-!
# JSON: texts between quotes

`Spells s raw` says without the reader that `raw` is one way to write `s`; the reader takes every
such way (`takeText_of_spells`), and the writer writes one of them (`spells_escape`).
-/

namespace VersionFloor.Data.Json

open Text

inductive Spells : List Char → List Char → Prop
  | nil : Spells [] []
  | plain {c : Char} {s raw : List Char} (hlow : 0x20 ≤ c.toNat) (hquote : c ≠ '"')
      (hslash : c ≠ '\\') : Spells s raw → Spells (c :: s) (c :: raw)
  | short {e c : Char} {s raw : List Char} (he : shortEscape? e = some c) :
      Spells s raw → Spells (c :: s) ('\\' :: e :: raw)
  | unit {a b c d : Char} {n : Nat} {s raw : List Char} (hn : unit? a b c d = some n)
      (hhigh : isHighUnit n = false) (hlow : isLowUnit n = false) :
      Spells s raw → Spells (Char.ofNat n :: s) ('\\' :: 'u' :: a :: b :: c :: d :: raw)
  | pair {a b c d a' b' c' d' : Char} {n n' : Nat} {s raw : List Char}
      (hn : unit? a b c d = some n) (hn' : unit? a' b' c' d' = some n')
      (hhigh : isHighUnit n = true) (hlow : isLowUnit n' = true) :
      Spells s raw → Spells (pairChar n n' :: s)
        ('\\' :: 'u' :: a :: b :: c :: d :: '\\' :: 'u' :: a' :: b' :: c' :: d' :: raw)

/-! ### reading -/

/-- one more character in front of a text that is read -/
def withFirst (c : Char) (t : Option (List Char × List Char)) : Option (List Char × List Char) :=
  t.map fun (s, r) => (c :: s, r)

theorem takeText_plain {c : Char} (hlow : 0x20 ≤ c.toNat) (hquote : c ≠ '"') (hslash : c ≠ '\\')
    (t : List Char) : takeText (c :: t) = withFirst c (takeText t) := by
  have hplain : ¬(c.toNat < 0x20 ∨ c = '\\') := by
    rintro (h | h)
    · omega
    · exact hslash h
  rw [takeText]
  · rw [if_neg hplain]
    rfl
  · exact hquote
  · rintro _ _ _ _ _ _ _ _ _ h
    exact absurd h hslash
  · rintro _ _ _ _ _ h
    exact absurd h hslash
  · rintro _ _ h
    exact absurd h hslash

theorem takeText_short {e c : Char} (he : shortEscape? e = some c) (t : List Char) :
    takeText ('\\' :: e :: t) = withFirst c (takeText t) := by
  have hu : e ≠ 'u' := by
    rintro rfl
    cases he
  rw [takeText]
  · rw [he]
    rfl
  · rintro _ _ _ _ _ _ _ _ _ h
    exact absurd h hu
  · rintro _ _ _ _ _ h
    exact absurd h hu

theorem takeText_pair {a b c d a' b' c' d' : Char} {n n' : Nat} (hn : unit? a b c d = some n)
    (hn' : unit? a' b' c' d' = some n') (hhigh : isHighUnit n = true)
    (hlow : isLowUnit n' = true) (t : List Char) :
    takeText ('\\' :: 'u' :: a :: b :: c :: d :: '\\' :: 'u' :: a' :: b' :: c' :: d' :: t) =
      withFirst (pairChar n n') (takeText t) := by
  rw [takeText]
  simp only [hn, hn', hhigh, hlow, if_true]
  rfl

/-- whether a text starts like a unit; the reader looks for a second one behind the first -/
def StartsUnit (t : List Char) : Prop :=
  ∃ a b c d r, t = '\\' :: 'u' :: a :: b :: c :: d :: r

theorem takeText_of_not_unit {a b c d : Char} (hn : unit? a b c d = none) (t : List Char) :
    takeText ('\\' :: 'u' :: a :: b :: c :: d :: t) = none := by
  by_cases hunit : StartsUnit t
  · obtain ⟨a', b', c', d', r, rfl⟩ := hunit
    rw [takeText, hn]
  · rw [takeText]
    · rw [hn]
    · rintro a' b' c' d' r rfl
      exact hunit ⟨a', b', c', d', r, rfl⟩

/-- a unit that is a character by itself is read by itself, whatever follows -/
theorem takeText_unit {a b c d : Char} {n : Nat} (hn : unit? a b c d = some n)
    (hhigh : isHighUnit n = false) (hlow : isLowUnit n = false) (t : List Char) :
    takeText ('\\' :: 'u' :: a :: b :: c :: d :: t) = withFirst (Char.ofNat n) (takeText t) := by
  by_cases hunit : StartsUnit t
  · obtain ⟨a', b', c', d', r, rfl⟩ := hunit
    rw [takeText]
    cases hn' : unit? a' b' c' d' with
    | some n' =>
      simp only [hn, hhigh, hlow, Bool.false_eq_true, if_false]
      rfl
    | none =>
      rw [takeText_of_not_unit hn', hn]
      rfl
  · rw [takeText]
    · simp only [hn, hhigh, hlow, Bool.or_self, Bool.false_eq_true, if_false]
      rfl
    · rintro a' b' c' d' r rfl
      exact hunit ⟨a', b', c', d', r, rfl⟩

/-- **Every way to write a text is read**, up to the closing quote. -/
theorem takeText_of_spells {s raw : List Char} (h : Spells s raw) (rest : List Char) :
    takeText (raw ++ '"' :: rest) = some (s, rest) := by
  induction h with
  | nil => rfl
  | plain hlow hquote hslash _ ih =>
    rw [List.cons_append, takeText_plain hlow hquote hslash, ih]
    rfl
  | short he _ ih =>
    rw [List.cons_append, List.cons_append, takeText_short he, ih]
    rfl
  | unit hn hhigh hlow _ ih =>
    simp only [List.cons_append]
    rw [takeText_unit hn hhigh hlow, ih]
    rfl
  | pair hn hn' hhigh hlow _ ih =>
    simp only [List.cons_append]
    rw [takeText_pair hn hn' hhigh hlow, ih]
    rfl

/-! ### writing -/

/-- the way the writer has for each control character -/
theorem unit?_hexDigit : ∀ n < 0x20,
    unit? '0' '0' (hexDigit (n / 16)) (hexDigit (n % 16)) = some n := by
  decide

theorem Spells.escapeChar (c : Char) {s raw : List Char} (h : Spells s raw) :
    Spells (c :: s) (Json.escapeChar c ++ raw) := by
  unfold Json.escapeChar
  split
  · exact .short rfl h
  · exact .short rfl h
  · exact .short rfl h
  · exact .short rfl h
  · exact .short rfl h
  · exact .short rfl h
  · exact .short rfl h
  · rename_i hquote hslash _ _ _ _ _
    split
    · rename_i hc
      have hunit := unit?_hexDigit c.toNat hc
      have hhigh : isHighUnit c.toNat = false := by simp [isHighUnit]; omega
      have hlow : isLowUnit c.toNat = false := by simp [isLowUnit]; omega
      have hspells := Spells.unit hunit hhigh hlow h
      rwa [Char.ofNat_toNat] at hspells
    · rename_i hc
      exact .plain (by omega) hquote hslash h

theorem spells_escape (s : List Char) : Spells s (s.flatMap escapeChar) := by
  induction s with
  | nil => exact .nil
  | cons c s ih =>
    rw [List.flatMap_cons]
    exact ih.escapeChar c

end VersionFloor.Data.Json
