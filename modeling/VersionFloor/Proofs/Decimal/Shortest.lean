import Mathlib.Data.Nat.Digits.Defs
import VersionFloor.Decimal.Shortest
import VersionFloor.Proofs.Decimal.Binary

/-!
# Decimals: printing what was read

A number of at most fifteen digits is the only one of its length that is rounded to its 53 bits, so
the shortest digits that read back are its own digits without the zeros at their end
(`Binary.text_of_ofDecimal?`).
-/

namespace VersionFloor.Decimal

theorem ten_zpow_pos (p : Int) : (0 : ℚ) < 10 ^ p := zpow_pos (by norm_num) p

/-- the same number in smaller places -/
theorem mul_ten_zpow (c : Nat) {p q : Int} {k : Nat} (h : p + k = q) :
    (c : ℚ) * 10 ^ q = ((c * 10 ^ k : Nat) : ℚ) * 10 ^ p := by
  rw [← h, zpow_add₀ (by norm_num), zpow_natCast]
  push_cast
  ring

theorem mul_pow_eq_of_mul_ten_zpow {c n : Nat} {p q : Int} {k : Nat} (hk : p + k = q)
    (h : (c : ℚ) * 10 ^ q = n * 10 ^ p) : c * 10 ^ k = n := by
  rw [mul_ten_zpow c hk] at h
  exact_mod_cast mul_right_cancel₀ (ten_zpow_pos p).ne' h

theorem tenTo_eq (n : Nat) : tenTo n = 10 ^ n := rfl

/-! ### the first digit -/

/-- a number has one digit more than the power of ten that it reaches -/
theorem exists_digitCount {n : Nat} (hn : 0 < n) :
    ∃ a, digitCount n = a + 1 ∧ 10 ^ a ≤ n ∧ n < 10 ^ (a + 1) := by
  have hpos : 0 < digitCount n := Nat.length_toDigits_pos
  obtain ⟨a, ha⟩ := Nat.exists_eq_add_one_of_ne_zero hpos.ne'
  have hle (k : Nat) (hk : 0 < k) : digitCount n ≤ k ↔ n < 10 ^ k :=
    Nat.length_toDigits_le_iff (by decide) hk
  refine ⟨a, ha, ?_, (hle (a + 1) (Nat.succ_pos a)).mp ha.le⟩
  cases a with
  | zero => exact hn
  | succ a =>
    rw [← not_lt, ← hle (a + 1) (Nat.succ_pos a)]
    omega

theorem digitCount_le {n : Nat} (hn : 0 < n) {k : Nat} (hk : n < 10 ^ k) : digitCount n ≤ k := by
  obtain ⟨a, ha, hreach, -⟩ := exists_digitCount hn
  have hlt : a < k := (Nat.pow_lt_pow_iff_right (by decide)).mp (hreach.trans_lt hk)
  omega

theorem leadingPower_spec {num den : Nat} (hnum : 0 < num) (hden : 0 < den) :
    (10 : ℚ) ^ leadingPower num den ≤ num / den ∧
      (num : ℚ) / den < 10 ^ (leadingPower num den + 1) := by
  obtain ⟨a, ha, hnumLow, hnumHigh⟩ := exists_digitCount hnum
  obtain ⟨b, hb, hdenLow, hdenHigh⟩ := exists_digitCount hden
  obtain ⟨hlow, hhigh⟩ :=
    quotient_between (by decide : 1 < 10) hnumLow hnumHigh hdenLow hdenHigh
  push_cast at hlow hhigh
  have hpos : (0 : ℚ) < den := Nat.cast_pos.mpr hden
  have hk : (digitCount num : Int) - digitCount den = a - b := by
    rw [ha, hb]
    push_cast
    omega
  have hreached : (if (a : Int) - b < 0 then den ≤ num * tenTo ((a : Int) - b).natAbs
      else den * tenTo ((a : Int) - b).natAbs ≤ num) ↔ (10 : ℚ) ^ ((a : Int) - b) ≤ num / den := by
    split
    · rename_i hneg
      rw [zpow_of_neg 10 hneg, le_div_iff₀ hpos, tenTo_eq, inv_mul_le_iff₀ (by positivity),
        mul_comm]
      exact_mod_cast Iff.rfl
    · rename_i hneg
      rw [zpow_of_not_neg 10 hneg, le_div_iff₀ hpos, tenTo_eq, mul_comm]
      exact_mod_cast Iff.rfl
  unfold leadingPower
  dsimp only
  rw [hk]
  by_cases h : (10 : ℚ) ^ ((a : Int) - b) ≤ num / den
  · rw [if_pos (hreached.mpr h)]
    exact ⟨h, hhigh⟩
  · rw [if_neg (mt hreached.mp h), sub_add_cancel]
    exact ⟨hlow.le, not_le.mp h⟩

/-! ### reading digits -/

theorem inTens_pos (num : Nat) {den : Nat} (hden : 0 < den) (p : Int) :
    0 < (inTens num den p).2 := by
  unfold inTens
  split
  · exact hden
  · rw [tenTo_eq]
    positivity

theorem inTens_eq (num den : Nat) (p : Int) :
    ((inTens num den p).1 : ℚ) / (inTens num den p).2 = num / den / 10 ^ p := by
  unfold inTens
  split
  · rename_i hp
    rw [tenTo_eq, zpow_of_neg 10 hp]
    push_cast
    field_simp
  · rename_i hp
    rw [tenTo_eq, zpow_of_not_neg 10 hp]
    push_cast
    field_simp

theorem inTens_mul (n : Nat) (p : Int) :
    ((inTens n 1 (-p)).1 : ℚ) / (inTens n 1 (-p)).2 = n * 10 ^ p := by
  rw [inTens_eq, Nat.cast_one, div_one, zpow_neg, div_inv_eq_mul]

namespace Binary

variable {b : Binary}

/-- digits that are not all zeros are read as the quotient they stand for -/
theorem exists_of_ofDecimal? {c : Nat} {p : Int} (h : ofDecimal? c p = some b)
    (hb : b.mantissa ≠ 0) :
    ∃ num den : Nat, 0 < num ∧ 0 < den ∧ (num : ℚ) / den = c * 10 ^ p ∧
      ofRatio? num den = some b := by
  unfold ofDecimal? at h
  split at h
  · rw [← Option.some.inj h] at hb
    exact absurd rfl hb
  · rename_i hc
    have hpos : 0 < c := Nat.pos_of_ne_zero hc
    split at h
    · cases h
    · split at h
      · rw [← Option.some.inj h] at hb
        exact absurd rfl hb
      · split at h
        · rename_i hp
          refine ⟨c, _, hpos, ?_, ?_, h⟩
          · rw [tenTo_eq]
            positivity
          · rw [tenTo_eq, zpow_of_neg 10 hp, div_eq_mul_inv]
            push_cast
            rfl
        · rename_i hp
          refine ⟨_, 1, ?_, Nat.one_pos, ?_, h⟩
          · rw [tenTo_eq]
            positivity
          · rw [tenTo_eq, zpow_of_not_neg 10 hp]
            push_cast
            rw [div_one]

/-- digits in range are read as any quotient with the same value -/
theorem ofDecimal?_eq {c : Nat} {p : Int} (hc : 0 < c) (hlow : -400 ≤ digitCount c + p)
    (hhigh : digitCount c + p ≤ 400) {num den : Nat} (hden : 0 < den)
    (hvalue : (num : ℚ) / den = c * 10 ^ p) : ofDecimal? c p = ofRatio? num den := by
  have hdenPos : (den : ℚ) ≠ 0 := Nat.cast_ne_zero.mpr hden.ne'
  rw [div_eq_iff hdenPos] at hvalue
  rw [ofDecimal?, if_neg hc.ne', if_neg (by omega), if_neg (by omega)]
  split
  · rename_i hp
    rw [zpow_of_neg 10 hp] at hvalue
    refine ofRatio?_congr ?_ hden ?_
    · rw [tenTo_eq]
      positivity
    · rw [tenTo_eq]
      field_simp at hvalue
      exact_mod_cast hvalue.symm
  · rename_i hp
    rw [zpow_of_not_neg 10 hp] at hvalue
    refine ofRatio?_congr Nat.one_pos hden ?_
    rw [tenTo_eq, Nat.mul_one]
    exact_mod_cast hvalue.symm

/-- digits behind a point are read as their quotient by a power of ten -/
theorem ofDecimal?_neg {n k : Nat} (hn : n < 10 ^ 15) (hk : k ≤ 15) :
    ofDecimal? n (-k : Int) = ofRatio? n (10 ^ k) := by
  rcases Nat.eq_zero_or_pos n with rfl | hpos
  · rfl
  · have hcount := digitCount_le hpos hn
    have hpow : 0 < 10 ^ k := by positivity
    apply ofDecimal?_eq hpos (by omega) (by omega) hpow
    rw [zpow_neg, zpow_natCast, div_eq_mul_inv]
    push_cast
    rfl

/-- the places may be shifted -/
theorem ofDecimal?_congr {m n : Nat} {p q : Int} (hm : 0 < m) (hm' : m < 10 ^ 15) (hn : 0 < n)
    (hn' : n < 10 ^ 15) (hq : -100 ≤ q ∧ q ≤ 100) (hp : -100 ≤ p ∧ p ≤ 100)
    (h : (m : ℚ) * 10 ^ q = n * 10 ^ p) : ofDecimal? m q = ofDecimal? n p := by
  have hmCount := digitCount_le hm hm'
  have hnCount := digitCount_le hn hn'
  have hden := inTens_pos n Nat.one_pos (-p)
  have hvalue := inTens_mul n p
  rw [ofDecimal?_eq hm (by omega) (by omega) hden (hvalue.trans h.symm),
    ofDecimal?_eq hn (by omega) (by omega) hden hvalue]

/-! ### what reads back -/

/-- the unit of the last bit is smaller than that of the last of fifteen digits -/
theorem unit_lt {n : Nat} {p : Int} (hn : n < 10 ^ 15) (hb : 2 ^ 52 ≤ b.mantissa)
    (hnear : |(n : ℚ) * 10 ^ p - b.value| ≤ 2 ^ b.exponent / 2) :
    (2 : ℚ) ^ b.exponent < 10 ^ p := by
  have hunit := two_zpow_pos b.exponent
  have hplace := ten_zpow_pos p
  have hbits : (2 : ℚ) ^ 52 * 2 ^ b.exponent ≤ b.value := by
    rw [value]
    exact mul_le_mul_of_nonneg_right (by exact_mod_cast hb) hunit.le
  have hdigits : (n : ℚ) * 10 ^ p ≤ 10 ^ 15 * 10 ^ p :=
    mul_le_mul_of_nonneg_right (by exact_mod_cast hn.le) hplace.le
  have hlow := (abs_le.mp hnear).1
  norm_num at hbits hdigits
  linarith

/-- **No other number of these places is rounded to the same bits.** -/
theorem eq_of_ofDecimal? {n c : Nat} {p q : Int} (hn : n < 10 ^ 15) (hb : 2 ^ 52 ≤ b.mantissa)
    (hnear : |(n : ℚ) * 10 ^ p - b.value| ≤ 2 ^ b.exponent / 2) (hpq : p ≤ q)
    (h : ofDecimal? c q = some b) : (c : ℚ) * 10 ^ q = n * 10 ^ p := by
  have hne : b.mantissa ≠ 0 := by
    rintro h0
    rw [h0] at hb
    exact absurd hb (by decide)
  obtain ⟨num, den, hnum, hden, hvalue, hread⟩ := exists_of_ofDecimal? h hne
  have hnear' := ofRatio?_near hnum hden hread hne
  have hlt := unit_lt hn hb hnear
  obtain ⟨k, hk⟩ := Int.le.dest hpq
  have hplace := ten_zpow_pos p
  -- both are whole numbers of units `10 ^ p`, and less than one unit apart
  have hwhole := mul_ten_zpow c hk
  rw [hvalue, hwhole] at hnear'
  have hclose : |((c * 10 ^ k : Nat) : ℚ) - n| * 10 ^ p < 1 * 10 ^ p := by
    rw [← abs_of_pos hplace, ← abs_mul, abs_of_pos hplace, sub_mul, abs_lt, one_mul]
    have hleft := abs_le.mp hnear
    have hright := abs_le.mp hnear'
    constructor <;> linarith [hleft.1, hleft.2, hright.1, hright.2]
  have hint : |((c * 10 ^ k : Nat) : Int) - n| < 1 := by
    have h1 := lt_of_mul_lt_mul_right hclose hplace.le
    exact_mod_cast h1
  have heq : c * 10 ^ k = n := by
    have h0 := Int.abs_lt_one_iff.mp hint
    omega
  rw [hwhole, heq]

/-! ### the search for the digits -/

/-- the two multiples of `10 ^ p` around the number are looked at -/
theorem mem_neighbours_iff (p : Int) : ∃ q : Nat, (q : ℚ) * 10 ^ p ≤ b.value ∧
    b.value < (q + 1) * 10 ^ p ∧
    ∀ c, c ∈ b.neighbours p ↔ (c = q ∨ c = q + 1) ∧ ofDecimal? c p = some b := by
  have hplace := ten_zpow_pos p
  have hden := inTens_pos b.ratio.1 b.ratio_pos p
  have hpos : (0 : ℚ) < (inTens b.ratio.1 b.ratio.2 p).2 := Nat.cast_pos.mpr hden
  have hvalue := inTens_eq b.ratio.1 b.ratio.2 p
  rw [ratio_eq] at hvalue
  refine ⟨(inTens b.ratio.1 b.ratio.2 p).1 / (inTens b.ratio.1 b.ratio.2 p).2, ?_, ?_, ?_⟩
  · rw [← le_div_iff₀ hplace, ← hvalue, le_div_iff₀ hpos]
    exact_mod_cast Nat.div_mul_le_self _ _
  · rw [← div_lt_iff₀ hplace, ← hvalue, div_lt_iff₀ hpos]
    exact_mod_cast (Nat.div_lt_iff_lt_mul hden).mp (Nat.lt_succ_self _)
  · intro c
    unfold neighbours
    dsimp only
    rw [List.mem_filter, decide_eq_true_iff]
    split <;> simp [or_comm]

/-- a number that is nearer than one place is one of the two -/
theorem mem_neighbours {c : Nat} {p : Int} (h : ofDecimal? c p = some b)
    (hnear : |(c : ℚ) * 10 ^ p - b.value| < 10 ^ p) : c ∈ b.neighbours p := by
  obtain ⟨q, hlow, hhigh, hmem⟩ := mem_neighbours_iff (b := b) p
  have hplace := ten_zpow_pos p
  obtain ⟨hleft, hright⟩ := abs_lt.mp hnear
  have hc : (c : ℚ) < q + 2 := by
    rw [← mul_lt_mul_iff_left₀ hplace]
    linarith
  have hq : (q : ℚ) < c + 1 := by
    rw [← mul_lt_mul_iff_left₀ hplace]
    linarith
  have hc' : c < q + 2 := by exact_mod_cast hc
  have hq' : q < c + 1 := by exact_mod_cast hq
  exact (hmem c).mpr ⟨by omega, h⟩

theorem ofDecimal?_of_mem_neighbours {c : Nat} {p : Int} (h : c ∈ b.neighbours p) :
    ofDecimal? c p = some b := by
  obtain ⟨q, -, -, hmem⟩ := mem_neighbours_iff (b := b) p
  exact ((hmem c).mp h).2

/-- the search ends where some digits read back, at the latest at the place `p` -/
theorem shortestFrom_spec {p : Int} {c : Nat} (hc : c ∈ b.neighbours p) (fuel : Nat) {start : Int}
    (hstart : p ≤ start) (hfuel : start ≤ p + fuel) :
    p ≤ (b.shortestFrom start fuel).2 ∧
      ofDecimal? (b.shortestFrom start fuel).1 (b.shortestFrom start fuel).2 = some b := by
  induction fuel generalizing start with
  | zero =>
    obtain rfl : start = p := by omega
    cases hn : b.neighbours start with
    | nil =>
      rw [hn] at hc
      cases hc
    | cons d ds =>
      have hd : d ∈ b.neighbours start := by
        rw [hn]
        exact List.mem_cons_self
      rw [shortestFrom, hn]
      exact ⟨le_refl _, ofDecimal?_of_mem_neighbours hd⟩
  | succ fuel ih =>
    rw [shortestFrom]
    split
    · rename_i d ds hn
      have hd : d ∈ b.neighbours start := by
        rw [hn]
        exact List.mem_cons_self
      exact ⟨hstart, ofDecimal?_of_mem_neighbours hd⟩
    · rename_i hn
      have hne : start ≠ p := by
        rintro rfl
        rw [hn] at hc
        cases hc
      exact ih (by omega) (by push_cast at hfuel; omega)

end Binary

/-- the zeros at the end of the digits go into the power -/
theorem stripZeros_spec (fuel : Nat) {digits : Nat} (power : Int) (hpos : 0 < digits)
    (hfuel : digits < 10 ^ fuel) :
    ((stripZeros digits power fuel).1 : ℚ) * 10 ^ (stripZeros digits power fuel).2 =
        digits * 10 ^ power ∧
      ¬ 10 ∣ (stripZeros digits power fuel).1 := by
  induction fuel generalizing digits power with
  | zero => omega
  | succ fuel ih =>
    rw [stripZeros]
    split
    · rename_i h
      obtain ⟨d, rfl⟩ := Nat.dvd_of_mod_eq_zero h.1
      rw [Nat.mul_div_cancel_left d (by decide)]
      rw [Nat.pow_succ] at hfuel
      have hd := ih (power + 1) (show 0 < d by omega) (by omega)
      refine ⟨?_, hd.2⟩
      rw [hd.1, zpow_add_one₀ (by norm_num)]
      push_cast
      ring
    · rename_i h
      refine ⟨rfl, fun hdvd => ?_⟩
      exact h ⟨Nat.mod_eq_zero_of_dvd hdvd, hpos.ne'⟩

/-! ### the text -/

namespace Binary

variable {b : Binary}

/-- digits that are not too long or too far out keep 53 bits, and hardly move -/
theorem near_of_ofDecimal? {n : Nat} {p : Int} (hpos : 0 < n) (hn : n < 10 ^ 15)
    (hlow : -60 ≤ p) (hhigh : p ≤ 60) (h : ofDecimal? n p = some b) :
    2 ^ 52 ≤ b.mantissa ∧ |(n : ℚ) * 10 ^ p - b.value| ≤ 2 ^ b.exponent / 2 := by
  have hplace := ten_zpow_pos p
  have hcount := digitCount_le hpos hn
  have hden := inTens_pos n Nat.one_pos (-p)
  have hvalue := inTens_mul n p
  rw [ofDecimal?_eq hpos (by omega) (by omega) hden hvalue] at h
  have hsize : (2 : ℚ) ^ (-1022 : Int) ≤ (inTens n 1 (-p)).1 / (inTens n 1 (-p)).2 := by
    have hten : (10 : ℚ) ^ (-60 : Int) ≤ 10 ^ p := zpow_le_zpow_right₀ (by norm_num) hlow
    have hone : (1 : ℚ) * 10 ^ p ≤ n * 10 ^ p :=
      mul_le_mul_of_nonneg_right (by exact_mod_cast hpos) hplace.le
    have htwo : (2 : ℚ) ^ (-1022 : Int) ≤ 2 ^ (-200 : Int) :=
      zpow_le_zpow_right₀ (by norm_num) (by decide)
    have htiny : (2 : ℚ) ^ (-200 : Int) ≤ 10 ^ (-60 : Int) := by norm_num
    rw [hvalue]
    linarith
  have hnormal := ofRatio?_normal hden hsize h
  have hnum : 0 < (inTens n 1 (-p)).1 := by
    rw [Nat.pos_iff_ne_zero]
    intro h0
    rw [h0, Nat.cast_zero, zero_div] at hsize
    exact absurd hsize (not_le.mpr (two_zpow_pos _))
  have hnear := ofRatio?_near hnum hden h (by omega)
  rw [hvalue] at hnear
  exact ⟨hnormal, hnear⟩

/-- the search for the digits passes the last place of a number that is near -/
theorem exists_place {n : Nat} {p : Int} (hpos : 0 < n) (hn : n < 10 ^ 15)
    (hb : 2 ^ 52 ≤ b.mantissa) (hnear : |(n : ℚ) * 10 ^ p - b.value| ≤ 2 ^ b.exponent / 2) :
    ∃ (m : Nat) (q : Int), 0 < m ∧ m < 10 ^ 15 ∧ (m : ℚ) * 10 ^ q = n * 10 ^ p ∧ p - 1 ≤ q ∧
      q ≤ p ∧ q ≤ leadingPower b.ratio.1 b.ratio.2 ∧
      leadingPower b.ratio.1 b.ratio.2 ≤ q + 17 := by
  have hunit := unit_lt hn hb hnear
  have hplace := ten_zpow_pos p
  obtain ⟨hleft, hright⟩ := abs_le.mp hnear
  have hone : (1 : ℚ) ≤ n := by exact_mod_cast hpos
  have hone' : (1 : ℚ) * 10 ^ p ≤ n * 10 ^ p := mul_le_mul_of_nonneg_right hone hplace.le
  have hmany : (n : ℚ) * 10 ^ p ≤ 10 ^ 15 * 10 ^ p :=
    mul_le_mul_of_nonneg_right (by exact_mod_cast hn.le) hplace.le
  have hvalue : 0 < b.value := by linarith
  have hnum : 0 < b.ratio.1 := by
    rw [Nat.pos_iff_ne_zero]
    intro h0
    rw [← ratio_eq, h0, Nat.cast_zero, zero_div] at hvalue
    exact absurd hvalue (lt_irrefl 0)
  obtain ⟨hlead, hlead'⟩ := leadingPower_spec hnum b.ratio_pos
  rw [ratio_eq] at hlead hlead'
  have hten : (1 : ℚ) < 10 := by norm_num
  have habove : leadingPower b.ratio.1 b.ratio.2 < p + 16 := by
    rw [← zpow_lt_zpow_iff_right₀ hten, zpow_add₀ (by norm_num)]
    norm_num at hmany ⊢
    linarith
  have hbelow : p - 1 < leadingPower b.ratio.1 b.ratio.2 + 1 := by
    rw [← zpow_lt_zpow_iff_right₀ hten, zpow_sub_one₀ (by norm_num)]
    norm_num at hlead' ⊢
    linarith
  rcases le_or_gt p (leadingPower b.ratio.1 b.ratio.2) with hle | hlt
  · exact ⟨n, p, hpos, hn, rfl, by omega, le_refl _, hle, by omega⟩
  · -- a power of ten, which may have been rounded down
    have hsmall : (n : ℚ) < 2 := by
      have hpow : (10 : ℚ) ^ (leadingPower b.ratio.1 b.ratio.2 + 1) ≤ 10 ^ p :=
        zpow_le_zpow_right₀ hten.le (by omega)
      rw [← mul_lt_mul_iff_left₀ hplace]
      linarith
    have hn1 : n = 1 := by
      have : n < 2 := by exact_mod_cast hsmall
      omega
    refine ⟨10, p - 1, by decide, by decide, ?_, le_refl _, by omega, by omega, by omega⟩
    rw [hn1, zpow_sub_one₀ (by norm_num)]
    push_cast
    ring

/-- **A number of at most fifteen digits is printed as it was read**, without the zeros at the end
of its digits. -/
theorem text_of_ofDecimal? {n : Nat} {p : Int} (hpos : 0 < n)
    (hn : n < 10 ^ 15) (hlow : -60 ≤ p) (hhigh : p ≤ 60) (h : ofDecimal? n p = some b) :
    ∃ (d : Nat) (q : Int), b.text = positional d q ∧ (d : ℚ) * 10 ^ q = n * 10 ^ p ∧ ¬ 10 ∣ d := by
  obtain ⟨hb, hnear⟩ := near_of_ofDecimal? hpos hn hlow hhigh h
  obtain ⟨m, q, hm, hm15, hmq, hqlow, hqhigh, hstart, hfuel⟩ := exists_place hpos hn hb hnear
  have hread : ofDecimal? m q = some b := by
    rw [← h]
    exact ofDecimal?_congr hm hm15 hpos hn (by omega) (by omega) hmq
  rw [← hmq] at hnear ⊢
  have hclose : |(m : ℚ) * 10 ^ q - b.value| < 10 ^ q := by
    have hunit := unit_lt hm15 hb hnear
    have hbit := two_zpow_pos b.exponent
    linarith
  obtain ⟨hplace, hshort⟩ := shortestFrom_spec (mem_neighbours hread hclose) 17 hstart hfuel
  have hvalue := eq_of_ofDecimal? hm15 hb hnear hplace hshort
  obtain ⟨k, hk⟩ := Int.le.dest hplace
  have hdigits : b.shortest.1 * 10 ^ k = m := mul_pow_eq_of_mul_ten_zpow hk hvalue
  have hpow : 0 < 10 ^ k := by positivity
  have hle : b.shortest.1 ≤ m := by
    rw [← hdigits]
    exact Nat.le_mul_of_pos_right _ hpow
  have hpos' : 0 < b.shortest.1 := by
    rw [← hdigits] at hm
    exact Nat.pos_of_mul_pos_right hm
  have hstrip := stripZeros_spec 20 b.shortest.2 hpos' (by omega)
  refine ⟨_, _, ?_, hstrip.1.trans hvalue, hstrip.2⟩
  rw [text, if_neg (by omega)]

end Binary

end VersionFloor.Decimal
