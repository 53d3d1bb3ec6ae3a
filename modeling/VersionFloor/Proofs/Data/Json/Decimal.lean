import VersionFloor.Proofs.Data.Json.Token
import VersionFloor.Proofs.Version.Numeral

/-!
# JSON: decimal numbers

A numeral is read as a whole number that is divided by a power of ten, and where both are exact the
result is rounded once only (`assemble?_eq`), so it is the number that the digits stand for
(`takeToken_numeral`).
-/

namespace VersionFloor.Data.Json

open Decimal Text

/-! ### dividing by a power of ten -/

theorem exists_ofNat? {n : Nat} (hn : n < 2 ^ 53) :
    ∃ b, Binary.ofNat? n = some b ∧ b.value = n := by
  have hsize : (n : ℚ) / (1 : Nat) < 2 ^ (64 : Int) := by
    have h : (n : ℚ) < 2 ^ 53 := by exact_mod_cast hn
    norm_num at h ⊢
    linarith
  obtain ⟨b, hb⟩ := Binary.exists_ofRatio? Nat.one_pos hsize
  exact ⟨b, hb, Binary.value_of_ofNat? hn hb⟩

/-- numbers that are kept as they are have the quotient of their digits -/
theorem div?_eq {f g : Binary} {m n : Nat} (hn : 0 < n) (hf : f.value = m) (hg : g.value = n) :
    f.div? g = Binary.ofRatio? m n := by
  have hfDen := f.ratio_pos
  have hgDen := g.ratio_pos
  have hfRatio : f.ratio.1 = m * f.ratio.2 := by
    have h := f.ratio_eq
    rw [hf, div_eq_iff (Nat.cast_ne_zero.mpr hfDen.ne')] at h
    exact_mod_cast h
  have hgRatio : g.ratio.1 = n * g.ratio.2 := by
    have h := g.ratio_eq
    rw [hg, div_eq_iff (Nat.cast_ne_zero.mpr hgDen.ne')] at h
    exact_mod_cast h
  refine Binary.ofRatio?_congr ?_ hn ?_
  · rw [hgRatio]
    positivity
  · rw [hfRatio, hgRatio]
    ring

/-- powers of ten are kept as they are, as long as they fit 53 bits -/
theorem exists_ofDecimal?_one {k : Nat} (hk : k ≤ 15) :
    ∃ g, Binary.ofDecimal? 1 k = some g ∧ g.value = (10 ^ k : Nat) := by
  have hsize : 10 ^ k < 2 ^ 53 := (Nat.pow_le_pow_right (by decide) hk).trans_lt (by decide)
  obtain ⟨g, hg, hvalue⟩ := exists_ofNat? hsize
  refine ⟨g, ?_, hvalue⟩
  rw [← hg]
  have hcount : digitCount 1 = 1 := rfl
  rw [Binary.ofDecimal?, if_neg (by decide), if_neg (by omega), if_neg (by omega),
    if_neg (by omega), Nat.one_mul]
  rfl

/-- **A quotient of short numbers is rounded once.** -/
theorem assemble?_eq {n k : Nat} (hn : n < 10 ^ 15) (hk : 0 < k) (hk' : k ≤ 15) :
    assemble? n (-k : Int) = Binary.ofDecimal? n (-k : Int) := by
  obtain ⟨f, hf, hfValue⟩ := exists_ofNat? (hn.trans (by decide))
  obtain ⟨g, hg, hgValue⟩ := exists_ofDecimal?_one hk'
  have hpow : 0 < 10 ^ k := by positivity
  have hassemble : assemble? n (-k : Int) = Binary.ofRatio? n (10 ^ k) := by
    have habs : (-k : Int).natAbs = k := by omega
    rw [← div?_eq hpow hfValue hgValue, assemble?, hf]
    show (if (-k : Int) < 0 then _ else _) = _
    rw [if_pos (by omega), habs, scaleDown, if_pos (by omega), hg]
    rfl
  rw [hassemble, Binary.ofDecimal?_neg hn hk']

/-! ### reading -/

variable {rest : List Char} (hrest : ¬ GoesOn rest)

include hrest

theorem takeExponent?_of_not_goesOn (word : Nat) (power : Int) :
    takeExponent? false word power rest =
      (assemble? word power).map fun b => (.finite false b, rest) := by
  rw [takeExponent?]
  · intro r he
    exact hrest ⟨'e', he ▸ rfl, .inr (.inr (.inl rfl))⟩
  · intro r he
    exact hrest ⟨'E', he ▸ rfl, .inr (.inr (.inr rfl))⟩

variable {n : Numeral} (hshort : n.IsShort) {b : Binary}
  (hb : Binary.ofDecimal? n.digits (-n.places : Int) = some b)

include hshort hb

/-- what is read behind the point -/
theorem takeFraction_numeral :
    takeFraction false (digitsNumber n.whole) (0 : Nat) (n.fraction ++ rest) =
      some (.finite false b, rest) := by
  have hdigits : Nat.ofDigitChars 10 n.fraction (digitsNumber n.whole) = n.digits := by
    rw [digitsNumber, ← Nat.ofDigitChars_append]
    rfl
  have hfits : n.digits ≤ largestWord := hshort.digits_lt.le.trans (by decide)
  have hword : takeWord (digitsNumber n.whole) 0 (n.fraction ++ rest) =
      (n.digits, 0 + n.places, rest) := by
    rw [takeWord_append n.isAsciiDigit_fraction (isAsciiDigit_of_not_goesOn hrest) _ _
      (hdigits ▸ hfits), hdigits]
    rfl
  have hplaces : 0 < n.places := List.length_pos_iff.mpr n.fraction_ne_nil
  have hbehind : rest.dropWhile isAsciiDigit = rest :=
    dropWhile_run (s := []) (fun _ hc => by cases hc) (isAsciiDigit_of_not_goesOn hrest)
  have hpower : ((0 : Nat) : Int) - ((0 + n.places : Nat) : Int) = -n.places := by omega
  obtain ⟨c, cs, hfraction⟩ := List.exists_cons_of_ne_nil n.fraction_ne_nil
  have hc : isAsciiDigit c = true :=
    n.isAsciiDigit_fraction c (hfraction ▸ List.mem_cons_self)
  rw [hfraction, List.cons_append] at hword ⊢
  rw [takeFraction, if_pos hc, hword]
  dsimp only
  rw [hbehind, takeExponent?_of_not_goesOn hrest, hpower,
    assemble?_eq hshort.digits_lt hplaces hshort.places_le, hb]
  rfl

/-- **A numeral is read as the number nearest to it.** -/
theorem takeToken_numeral (hlead : n.whole.head? = some '0' → n.whole.length = 1) :
    takeToken (n.text ++ rest) = some (.number (.double (.finite false b)), rest) := by
  have htext : n.text ++ rest = n.whole ++ '.' :: (n.fraction ++ rest) := by
    rw [Numeral.text, List.append_assoc, List.cons_append]
  have hfits : digitsNumber n.whole ≤ largestWord :=
    (n.whole_le_digits.trans hshort.digits_lt.le).trans (by decide)
  have hword : takeWord 0 0 (n.whole ++ '.' :: (n.fraction ++ rest)) =
      (digitsNumber n.whole, 0 + n.whole.length, '.' :: (n.fraction ++ rest)) :=
    takeWord_append n.isAsciiDigit_whole (by rintro c ⟨⟩; decide) 0 0 hfits
  obtain ⟨c, cs, hwhole⟩ := List.exists_cons_of_ne_nil n.whole_ne_nil
  have hc : isAsciiDigit c = true := n.isAsciiDigit_whole c (hwhole ▸ List.mem_cons_self)
  have hmagnitude : takeMagnitude false (n.whole ++ '.' :: (n.fraction ++ rest)) =
      some (.double (.finite false b), rest) := by
    have hcount : 0 + n.whole.length ≠ 0 := by
      rw [hwhole, List.length_cons]
      omega
    have hzero : ¬ ((n.whole ++ '.' :: (n.fraction ++ rest)).head? = some '0' ∧
        0 + n.whole.length ≠ 1) := by
      rintro ⟨hhead, hlong⟩
      rw [List.head?_append_of_ne_nil _ n.whole_ne_nil] at hhead
      exact hlong (by rw [hlead hhead])
    rw [takeMagnitude, hword]
    dsimp only
    rw [if_neg hcount, if_neg hzero]
    show (takeFraction false (digitsNumber n.whole) (0 : Nat) (n.fraction ++ rest)).map _ = _
    rw [takeFraction_numeral hrest hshort hb]
    rfl
  rw [htext]
  rw [hwhole, List.cons_append] at hmagnitude ⊢
  rw [takeToken_digit hc, hmagnitude]
  rfl

end VersionFloor.Data.Json
