import Mathlib.Data.Nat.Digits.Defs
import VersionFloor.Data.Json.Token

/-!
# JSON: natural numbers

Natural numbers as they are written, in decimal digits without zeros in front, are read again
(`takeMagnitude_digits`), as long as they fit a word and nothing follows that goes on with them.
-/

namespace VersionFloor.Data.Json

open Text

/-- whether a text starts with something that goes on with a number in front of it -/
def GoesOn (rest : List Char) : Prop :=
  ∃ c ∈ rest.head?, isAsciiDigit c = true ∨ c = '.' ∨ c = 'e' ∨ c = 'E'

/-! ### digits -/

theorem isAsciiDigit_iff (c : Char) : isAsciiDigit c = true ↔ 48 ≤ c.toNat ∧ c.toNat ≤ 57 := by
  rw [isAsciiDigit, Bool.and_eq_true, decide_eq_true_iff, decide_eq_true_iff]
  rfl

theorem isAsciiDigit_of_mem_toDigits {n : Nat} {c : Char} (h : c ∈ Nat.toDigits 10 n) :
    isAsciiDigit c = true := by
  have hdigit := Nat.isDigit_of_mem_toDigits (by decide) (by decide) h
  rw [isAsciiDigit_iff]
  rw [Char.isDigit, Bool.and_eq_true, decide_eq_true_iff, decide_eq_true_iff] at hdigit
  exact hdigit

theorem toDigits_zero : Nat.toDigits 10 0 = ['0'] := Nat.toDigits_of_lt_base (by decide)

theorem digitChar_ne_zero : ∀ n < 10, 0 < n → Nat.digitChar n ≠ '0' := by
  decide

/-- only the number zero starts with a zero -/
theorem head?_toDigits {n : Nat} (h : 0 < n) : (Nat.toDigits 10 n).head? ≠ some '0' := by
  induction n using Nat.strong_induction_on with
  | _ n ih =>
    by_cases hsmall : n < 10
    · rw [Nat.toDigits_of_lt_base hsmall]
      intro he
      exact digitChar_ne_zero n hsmall h (Option.some.inj he)
    · have hpos : 0 < n / 10 := by omega
      have hfront := ih (n / 10) (by omega) hpos
      rw [Nat.toDigits_of_base_le (by decide) (by omega), List.head?_append]
      cases hd : Nat.toDigits 10 (n / 10) with
      | nil => exact absurd hd Nat.toDigits_ne_nil
      | cons c ds =>
        rw [hd] at hfront
        exact hfront

theorem le_ofDigitChars (ds : List Char) (acc : Nat) : acc ≤ Nat.ofDigitChars 10 ds acc := by
  induction ds generalizing acc with
  | nil => exact Nat.le_refl acc
  | cons c ds ih =>
    have hle := ih (10 * acc + (c.toNat - '0'.toNat))
    rw [Nat.ofDigitChars_cons]
    omega

/-! ### reading -/

theorem isAsciiDigit_of_not_goesOn {rest : List Char} (h : ¬ GoesOn rest) :
    ∀ c ∈ rest.head?, isAsciiDigit c = false :=
  fun c hc => Bool.eq_false_iff.mpr fun hdigit => h ⟨c, hc, .inl hdigit⟩

theorem takeWord_append {ds rest : List Char} (hds : ∀ c ∈ ds, isAsciiDigit c = true)
    (hrest : ∀ c ∈ rest.head?, isAsciiDigit c = false) (acc count : Nat)
    (hle : Nat.ofDigitChars 10 ds acc ≤ largestWord) :
    takeWord acc count (ds ++ rest) =
      (Nat.ofDigitChars 10 ds acc, count + ds.length, rest) := by
  induction ds generalizing acc count with
  | nil =>
    cases rest with
    | nil => rfl
    | cons c rest =>
      rw [List.nil_append, takeWord, if_neg]
      · rfl
      · rintro ⟨hc, -⟩
        rw [hrest c rfl] at hc
        cases hc
  | cons c ds ih =>
    have hc : isAsciiDigit c = true := hds c List.mem_cons_self
    have hstep : acc * 10 + digitValue c = 10 * acc + (c.toNat - '0'.toNat) := by
      rw [Nat.mul_comm]
      rfl
    rw [Nat.ofDigitChars_cons] at hle ⊢
    have hfits : acc * 10 + digitValue c ≤ largestWord := by
      rw [hstep]
      exact (le_ofDigitChars _ _).trans hle
    rw [List.cons_append, takeWord, if_pos ⟨hc, hfits⟩, hstep,
      ih (fun d hd => hds d (List.mem_cons_of_mem _ hd)) _ _ hle, List.length_cons]
    congr 2
    omega

theorem takeMagnitude_digits {n : Nat} (hn : n ≤ largestWord) {rest : List Char}
    (hrest : ¬ GoesOn rest) :
    takeMagnitude false (Nat.toDigits 10 n ++ rest) = some (.natural n, rest) := by
  have hvalue : Nat.ofDigitChars 10 (Nat.toDigits 10 n) 0 = n :=
    Nat.ofDigitChars_toDigits (by decide) (by decide)
  have hword : takeWord 0 0 (Nat.toDigits 10 n ++ rest) =
      (n, (Nat.toDigits 10 n).length, rest) := by
    rw [takeWord_append (fun c hc => isAsciiDigit_of_mem_toDigits hc)
      (isAsciiDigit_of_not_goesOn hrest) 0 0 (by rw [hvalue]; exact hn), hvalue, Nat.zero_add]
  have hcount : (Nat.toDigits 10 n).length ≠ 0 := fun h =>
    Nat.toDigits_ne_nil (List.length_eq_zero_iff.mp h)
  have hlead : ¬((Nat.toDigits 10 n ++ rest).head? = some '0' ∧
      (Nat.toDigits 10 n).length ≠ 1) := by
    rintro ⟨hhead, hone⟩
    rcases Nat.eq_zero_or_pos n with rfl | hpos
    · exact hone (by rw [toDigits_zero]; rfl)
    · cases hd : Nat.toDigits 10 n with
      | nil => exact Nat.toDigits_ne_nil hd
      | cons c ds =>
        rw [hd] at hhead
        exact head?_toDigits hpos (by rw [hd]; exact hhead)
  rw [takeMagnitude, hword]
  dsimp only
  rw [if_neg hcount, if_neg hlead]
  cases rest with
  | nil => rfl
  | cons c rest =>
    have hdigit : isAsciiDigit c = false :=
      Bool.eq_false_iff.mpr fun hc => hrest ⟨c, rfl, .inl hc⟩
    have hpoint : c ≠ '.' := fun hc => hrest ⟨c, rfl, .inr (.inl hc)⟩
    have hexponent : ¬(([] : List Char) ≠ [] ∨ (c :: rest).head? = some 'e' ∨
        (c :: rest).head? = some 'E') := by
      rintro (h | h | h)
      · exact h rfl
      · exact hrest ⟨c, rfl, .inr (.inr (.inl (Option.some.inj h)))⟩
      · exact hrest ⟨c, rfl, .inr (.inr (.inr (Option.some.inj h)))⟩
    rw [List.takeWhile_cons_of_neg (by rw [hdigit]; decide),
      List.dropWhile_cons_of_neg (by rw [hdigit]; decide)]
    split
    · rename_i h
      exact absurd (List.cons.inj h).1 hpoint
    · rw [if_neg hexponent, if_pos (by decide)]

end VersionFloor.Data.Json
