import Mathlib.Algebra.Order.Field.Power
import Mathlib.Data.Nat.Log
import Mathlib.Data.Rat.Cast.Order
import Mathlib.Tactic.FieldSimp
import Mathlib.Tactic.Linarith
import Mathlib.Tactic.Positivity
import Mathlib.Tactic.Ring
import VersionFloor.Decimal.Binary

/-!
# Decimals: rounding to 53 bits

The number that a quotient is rounded to depends on the quotient only (`Binary.ofRatio?_congr`), it
is at most half a unit of its last bit away (`Binary.ofRatio?_near`), and where the quotient is not
tiny its mantissa has all 53 bits (`Binary.ofRatio?_normal`).
-/

namespace VersionFloor.Decimal

/-! ### quotients -/

theorem two_zpow_pos (e : Int) : (0 : ℚ) < 2 ^ e := zpow_pos (by norm_num) e

theorem zpow_of_neg (x : ℚ) {e : Int} (he : e < 0) : x ^ e = (x ^ e.natAbs)⁻¹ := by
  rw [← zpow_natCast, ← zpow_neg]
  congr 1
  omega

theorem zpow_of_not_neg (x : ℚ) {e : Int} (he : ¬ e < 0) : x ^ e = x ^ e.natAbs := by
  rw [← zpow_natCast]
  congr 1
  omega

theorem inUnits_pos (num : Nat) {den : Nat} (hden : 0 < den) (e : Int) :
    0 < (inUnits num den e).2 := by
  unfold inUnits
  split
  · exact hden
  · rw [Nat.shiftLeft_eq]
    positivity

/-- a quotient lies between powers of a base when both its parts do -/
theorem quotient_between {base num den a b : Nat} (hbase : 1 < base) (hnum : base ^ a ≤ num)
    (hnum' : num < base ^ (a + 1)) (hden : base ^ b ≤ den) (hden' : den < base ^ (b + 1)) :
    (base : ℚ) ^ ((a : Int) - b - 1) < num / den ∧
      (num : ℚ) / den < base ^ ((a : Int) - b + 1) := by
  have hpos : (0 : ℚ) < base := by exact_mod_cast Nat.lt_of_succ_lt hbase
  have hdenPos : (0 : ℚ) < den := by
    exact_mod_cast (Nat.pow_pos (Nat.lt_of_succ_lt hbase)).trans_le hden
  have hlow : (base : ℚ) ^ ((a : Int) - b - 1) = base ^ a / base ^ (b + 1) := by
    rw [sub_sub, zpow_sub₀ hpos.ne', zpow_natCast]
    exact_mod_cast rfl
  have hhigh : (base : ℚ) ^ ((a : Int) - b + 1) = base ^ (a + 1) / base ^ b := by
    rw [sub_add_eq_add_sub, zpow_sub₀ hpos.ne', zpow_natCast]
    exact_mod_cast rfl
  rw [hlow, hhigh, div_lt_div_iff₀ (by positivity) hdenPos, div_lt_div_iff₀ hdenPos (by positivity)]
  constructor
  · have h : base ^ a * den < num * base ^ (b + 1) :=
      Nat.mul_lt_mul_of_le_of_lt hnum hden' ((Nat.pow_pos (by omega)).trans_le hnum)
    exact_mod_cast h
  · have h : num * base ^ b < base ^ (a + 1) * den :=
      Nat.mul_lt_mul_of_lt_of_le hnum' hden ((Nat.pow_pos (by omega)).trans_le hden)
    exact_mod_cast h

/-- in units of `2 ^ e` a quotient is divided by that power -/
theorem inUnits_eq (num den : Nat) (e : Int) :
    ((inUnits num den e).1 : ℚ) / (inUnits num den e).2 = num / den / 2 ^ e := by
  unfold inUnits
  split
  · rename_i he
    rw [Nat.shiftLeft_eq, zpow_of_neg 2 he]
    push_cast
    field_simp
  · rename_i he
    rw [Nat.shiftLeft_eq, zpow_of_not_neg 2 he]
    push_cast
    field_simp

theorem inUnits_cross {num den num' den' : Nat} (h : num * den' = num' * den) (e : Int) :
    (inUnits num den e).1 * (inUnits num' den' e).2 =
      (inUnits num' den' e).1 * (inUnits num den e).2 := by
  unfold inUnits
  split
  · simp only [Nat.shiftLeft_eq]
    rw [Nat.mul_right_comm, h, Nat.mul_right_comm]
  · simp only [Nat.shiftLeft_eq]
    rw [← Nat.mul_assoc, h, Nat.mul_assoc]

/-- a common factor does not count -/
theorem roundQuotient_mul {k : Nat} (hk : 0 < k) (num den : Nat) :
    roundQuotient (k * num) (k * den) = roundQuotient num den := by
  have hlow : 2 * (k * (num % den)) < k * den ↔ 2 * (num % den) < den := by
    rw [Nat.mul_left_comm, Nat.mul_lt_mul_left hk]
  have hhigh : k * den < 2 * (k * (num % den)) ↔ den < 2 * (num % den) := by
    rw [Nat.mul_left_comm, Nat.mul_lt_mul_left hk]
  simp only [roundQuotient, Nat.mul_div_mul_left _ _ hk, Nat.mul_mod_mul_left, hlow, hhigh]

theorem roundQuotient_congr {num den num' den' : Nat} (hden : 0 < den) (hden' : 0 < den')
    (h : num * den' = num' * den) : roundQuotient num den = roundQuotient num' den' := by
  rw [← roundQuotient_mul hden', ← roundQuotient_mul hden num' den', Nat.mul_comm den' num, h,
    Nat.mul_comm num', Nat.mul_comm den']

/-- no natural number is nearer, up to a tie -/
theorem roundQuotient_near (num : Nat) {den : Nat} (hden : 0 < den) :
    |(num : ℚ) / den - roundQuotient num den| ≤ 1 / 2 := by
  have hbound : 2 * num ≤ 2 * (roundQuotient num den * den) + den ∧
      2 * (roundQuotient num den * den) ≤ 2 * num + den := by
    have hsplit : num / den * den + num % den = num := Nat.div_add_mod' num den
    have hlt : num % den < den := Nat.mod_lt num hden
    unfold roundQuotient
    dsimp only
    split
    · omega
    · split
      · rw [Nat.add_mul]
        omega
      · rcases Nat.mod_two_eq_zero_or_one (num / den) with h | h
        · rw [h, Nat.add_zero]
          omega
        · rw [h, Nat.add_mul]
          omega
  have hpos : (0 : ℚ) < den := Nat.cast_pos.mpr hden
  have hlow : (2 : ℚ) * num ≤ 2 * (roundQuotient num den * den) + den := by exact_mod_cast hbound.1
  have hhigh : (2 : ℚ) * (roundQuotient num den * den) ≤ 2 * num + den := by
    exact_mod_cast hbound.2
  have hsplit : (num : ℚ) / den - roundQuotient num den =
      (num - roundQuotient num den * den) / den := by field_simp
  rw [hsplit, abs_le, le_div_iff₀ hpos, div_le_iff₀ hpos]
  constructor <;> linarith

theorem le_roundQuotient (num den : Nat) : num / den ≤ roundQuotient num den := by
  unfold roundQuotient
  dsimp only
  split
  · exact Nat.le_refl _
  · split <;> omega

/-! ### the unit of the last bit -/

namespace Binary

/-- the exponent that leaves 53 bits in front of the point, or the least one -/
structure IsUnit (e : Int) (x : ℚ) : Prop where
  least : -1074 ≤ e
  below : x < 2 ^ (e + 53)
  above : e = -1074 ∨ (2 : ℚ) ^ (e + 52) ≤ x

theorem IsUnit.le {e e' : Int} {x : ℚ} (h : IsUnit e x) (h' : IsUnit e' x) : e ≤ e' := by
  by_contra hlt
  rcases h.above with he | habove
  · have := h'.least
    omega
  · have hpow : (2 : ℚ) ^ (e' + 53) ≤ 2 ^ (e + 52) := zpow_le_zpow_right₀ (by norm_num) (by omega)
    exact absurd h'.below (not_lt.mpr (hpow.trans habove))

/-- the whole part of a quotient in units is below a bound when the quotient is -/
theorem inUnits_lt_iff {num den : Nat} (hden : 0 < den) (e : Int) (bits : Nat) :
    (inUnits num den e).1 / (inUnits num den e).2 < 2 ^ bits ↔
      (num : ℚ) / den < 2 ^ (e + bits) := by
  have hpos : (0 : ℚ) < (inUnits num den e).2 := Nat.cast_pos.mpr (inUnits_pos num hden e)
  have hdiv := inUnits_eq num den e
  rw [Nat.div_lt_iff_lt_mul (inUnits_pos num hden e), zpow_add₀ (by norm_num : (2 : ℚ) ≠ 0),
    zpow_natCast, mul_comm ((2 : ℚ) ^ e), ← div_lt_iff₀ (two_zpow_pos e), ← hdiv,
    div_lt_iff₀ hpos]
  exact_mod_cast Iff.rfl

theorem isUnit_unitExponent {num den : Nat} (hnum : 0 < num) (hden : 0 < den) :
    IsUnit (unitExponent num den) (num / den) := by
  obtain ⟨hlow, hhigh⟩ := quotient_between (by decide : 1 < 2)
    (Nat.log2_self_le hnum.ne') Nat.lt_log2_self (Nat.log2_self_le hden.ne') Nat.lt_log2_self
  push_cast at hlow hhigh
  have hlimit (e : Int) : (inUnits num den e).1 / (inUnits num den e).2 < mantissaLimit ↔
      (num : ℚ) / den < 2 ^ (e + 53) := inUnits_lt_iff hden e 53
  unfold unitExponent
  dsimp only
  split
  · rename_i h
    refine ⟨by omega, (hlimit _).mp h, ?_⟩
    rcases max_choice ((num.log2 : Int) - den.log2 - 53) (-1074) with hmax | hmax
    · right
      rw [hmax, show (num.log2 : Int) - den.log2 - 53 + 52 = num.log2 - den.log2 - 1 by omega]
      exact hlow.le
    · exact .inl hmax
  · rename_i h
    rw [hlimit, not_lt] at h
    refine ⟨by omega, hhigh.trans_le (zpow_le_zpow_right₀ (by norm_num) (by omega)), .inr ?_⟩
    rw [show ∀ e : Int, e + 1 + 52 = e + 53 from fun e => by omega]
    exact h

/-- the unit is that of the quotient -/
theorem unitExponent_congr {num den num' den' : Nat} (hnum : 0 < num) (hden : 0 < den)
    (hden' : 0 < den') (h : num * den' = num' * den) :
    unitExponent num den = unitExponent num' den' := by
  have hnum' : 0 < num' := by
    rw [Nat.pos_iff_ne_zero]
    rintro rfl
    rw [Nat.zero_mul] at h
    exact absurd h (Nat.mul_pos hnum hden').ne'
  have hvalue : (num : ℚ) / den = num' / den' := by
    rw [div_eq_div_iff (Nat.cast_ne_zero.mpr hden.ne') (Nat.cast_ne_zero.mpr hden'.ne')]
    exact_mod_cast h
  have hunit := isUnit_unitExponent hnum hden
  have hunit' := isUnit_unitExponent hnum' hden'
  rw [← hvalue] at hunit'
  exact le_antisymm (hunit.le hunit') (hunit'.le hunit)

/-! ### rounding -/

/-- the mantissa before a carry -/
def rounded (num den : Nat) : Nat :=
  let e := unitExponent num den
  roundQuotient (inUnits num den e).1 (inUnits num den e).2

theorem ofRatio?_eq {num den : Nat} (hnum : 0 < num) :
    ofRatio? num den =
      let b : Binary :=
        if rounded num den = mantissaLimit then ⟨mantissaLimit / 2, unitExponent num den + 1⟩
        else if rounded num den = 0 then zero else ⟨rounded num den, unitExponent num den⟩
      if 971 < b.exponent then none else some b := by
  rw [ofRatio?, if_neg hnum.ne']
  rfl

/-- **What a quotient is rounded to does not depend on how it is written.** -/
theorem ofRatio?_congr {num den num' den' : Nat} (hden : 0 < den) (hden' : 0 < den')
    (h : num * den' = num' * den) : ofRatio? num den = ofRatio? num' den' := by
  rcases Nat.eq_zero_or_pos num with rfl | hnum
  · rw [Nat.zero_mul, eq_comm, Nat.mul_eq_zero] at h
    rw [h.resolve_right hden.ne']
    rfl
  · have hnum' : 0 < num' := by
      rw [Nat.pos_iff_ne_zero]
      rintro rfl
      rw [Nat.zero_mul] at h
      exact absurd h (Nat.mul_pos hnum hden').ne'
    have hunit := unitExponent_congr hnum hden hden' h
    have hrounded : rounded num den = rounded num' den' := by
      rw [rounded, rounded, hunit]
      exact roundQuotient_congr (inUnits_pos num hden _) (inUnits_pos num' hden' _)
        (inUnits_cross h _)
    rw [ofRatio?_eq hnum, ofRatio?_eq hnum', hrounded, hunit]

/-- a mantissa that grows by a bit loses its last one -/
theorem ofRatio?_cases {num den : Nat} {b : Binary} (hnum : 0 < num)
    (h : ofRatio? num den = some b) :
    (rounded num den = 2 ^ 53 ∧ b = ⟨2 ^ 52, unitExponent num den + 1⟩) ∨
      (rounded num den = 0 ∧ b = zero) ∨ b = ⟨rounded num den, unitExponent num den⟩ := by
  rw [ofRatio?_eq hnum] at h
  obtain ⟨-, hb⟩ := Option.ite_none_left_eq_some.mp h
  rw [← Option.some.inj hb]
  split
  · rename_i hcarry
    exact .inl ⟨hcarry, rfl⟩
  · split
    · rename_i hzero
      exact .inr (.inl ⟨hzero, rfl⟩)
    · exact .inr (.inr rfl)

/-- the number itself -/
def value (b : Binary) : ℚ := b.mantissa * 2 ^ b.exponent

theorem rounded_near (num : Nat) {den : Nat} (hden : 0 < den) :
    |(num : ℚ) / den - rounded num den * 2 ^ unitExponent num den| ≤
      2 ^ unitExponent num den / 2 := by
  have hpos := two_zpow_pos (unitExponent num den)
  have hnear := roundQuotient_near (inUnits num den (unitExponent num den)).1
    (inUnits_pos num hden (unitExponent num den))
  rw [inUnits_eq] at hnear
  have hscale : (num : ℚ) / den - rounded num den * 2 ^ unitExponent num den =
      ((num : ℚ) / den / 2 ^ unitExponent num den - rounded num den) *
        2 ^ unitExponent num den := by
    rw [sub_mul, div_mul_cancel₀ _ hpos.ne']
  rw [hscale, abs_mul, abs_of_pos hpos, div_eq_mul_inv, mul_comm]
  rw [one_div] at hnear
  exact mul_le_mul_of_nonneg_left hnear hpos.le

theorem value_of_ofRatio? {num den : Nat} {b : Binary} (hnum : 0 < num)
    (h : ofRatio? num den = some b) :
    b.value = rounded num den * 2 ^ unitExponent num den := by
  rcases ofRatio?_cases hnum h with ⟨hcarry, rfl⟩ | ⟨hzero, rfl⟩ | rfl
  · rw [value, hcarry, zpow_add_one₀ (by norm_num)]
    push_cast
    ring
  · rw [value, zero, hzero, Nat.cast_zero, zero_mul, zero_mul]
  · rfl

/-- a number is at most half a unit of its last bit away from what was rounded to it -/
theorem ofRatio?_near {num den : Nat} {b : Binary} (hnum : 0 < num) (hden : 0 < den)
    (h : ofRatio? num den = some b) (hb : b.mantissa ≠ 0) :
    |(num : ℚ) / den - b.value| ≤ 2 ^ b.exponent / 2 := by
  have hunit : unitExponent num den ≤ b.exponent := by
    rcases ofRatio?_cases hnum h with ⟨-, rfl⟩ | ⟨-, rfl⟩ | rfl
    · exact Int.le_of_lt (Int.lt_succ _)
    · exact absurd rfl hb
    · exact le_refl _
  have hpow : (2 : ℚ) ^ unitExponent num den ≤ 2 ^ b.exponent :=
    zpow_le_zpow_right₀ (by norm_num) hunit
  have hnear := rounded_near num hden
  rw [value_of_ofRatio? hnum h]
  linarith

/-- a quotient that is not tiny keeps 53 bits -/
theorem ofRatio?_normal {num den : Nat} {b : Binary} (hden : 0 < den)
    (hsize : (2 : ℚ) ^ (-1022 : Int) ≤ num / den) (h : ofRatio? num den = some b) :
    2 ^ 52 ≤ b.mantissa := by
  have hnum : 0 < num := by
    rw [Nat.pos_iff_ne_zero]
    rintro rfl
    rw [Nat.cast_zero, zero_div] at hsize
    exact absurd hsize (not_le.mpr (two_zpow_pos _))
  have hfull : 2 ^ 52 ≤ rounded num den := by
    have hquotient : (2 : ℚ) ^ (unitExponent num den + 52) ≤ num / den := by
      rcases (isUnit_unitExponent hnum hden).above with he | habove
      · rw [he]
        exact hsize
      · exact habove
    refine le_trans ?_ (le_roundQuotient _ _)
    rw [← not_lt] at hquotient ⊢
    exact fun hlt => hquotient ((inUnits_lt_iff hden _ 52).mp hlt)
  rcases ofRatio?_cases hnum h with ⟨-, rfl⟩ | ⟨hzero, -⟩ | rfl
  · exact le_refl _
  · rw [hzero] at hfull
    exact absurd hfull (by decide)
  · exact hfull

/-- a quotient that is not huge is rounded to something -/
theorem exists_ofRatio? {num den : Nat} (hden : 0 < den)
    (hsize : (num : ℚ) / den < 2 ^ (64 : Int)) : ∃ b, ofRatio? num den = some b := by
  rcases Nat.eq_zero_or_pos num with rfl | hnum
  · exact ⟨zero, rfl⟩
  · have hunit : unitExponent num den ≤ 12 := by
      rcases (isUnit_unitExponent hnum hden).above with he | habove
      · omega
      · have hlt := (zpow_lt_zpow_iff_right₀ (by norm_num : (1 : ℚ) < 2)).mp (habove.trans_lt hsize)
        omega
    rw [ofRatio?_eq hnum]
    dsimp only
    refine ⟨_, if_neg ?_⟩
    split
    · dsimp only
      omega
    · split
      · decide
      · dsimp only
        omega

/-! ### natural numbers -/

theorem ratio_pos (b : Binary) : 0 < b.ratio.2 := by
  unfold ratio
  split
  · dsimp only
    rw [Nat.shiftLeft_eq]
    positivity
  · exact Nat.one_pos

theorem ratio_eq (b : Binary) : (b.ratio.1 : ℚ) / b.ratio.2 = b.value := by
  unfold ratio value
  split
  · rename_i he
    rw [Nat.shiftLeft_eq, zpow_of_neg 2 he, div_eq_mul_inv]
    push_cast
    rw [one_mul]
  · rename_i he
    rw [Nat.shiftLeft_eq, zpow_of_not_neg 2 he]
    push_cast
    rw [div_one]

theorem roundQuotient_one (n : Nat) : roundQuotient n 1 = n := by
  rw [roundQuotient, Nat.mod_one, Nat.div_one]
  rfl

/-- a natural number of 53 bits is kept as it is -/
theorem value_of_ofNat? {n : Nat} {b : Binary} (hn : n < 2 ^ 53) (h : ofNat? n = some b) :
    b.value = n := by
  rcases Nat.eq_zero_or_pos n with rfl | hpos
  · cases h
    rw [value, zero, Nat.cast_zero, zero_mul]
  · have hunit : unitExponent n 1 ≤ 0 := by
      rcases (isUnit_unitExponent hpos Nat.one_pos).above with he | habove
      · omega
      · have hlt : (n : ℚ) / (1 : Nat) < 2 ^ (53 : Int) := by
          rw [Nat.cast_one, div_one]
          exact_mod_cast hn
        have := (zpow_lt_zpow_iff_right₀ (by norm_num : (1 : ℚ) < 2)).mp (habove.trans_lt hlt)
        omega
    have hwhole : (inUnits n 1 (unitExponent n 1)).2 = 1 := by
      unfold inUnits
      split
      · rfl
      · rw [show unitExponent n 1 = 0 by omega]
        rfl
    have hscaled := inUnits_eq n 1 (unitExponent n 1)
    rw [hwhole, Nat.cast_one, div_one, div_one] at hscaled
    rw [value_of_ofRatio? hpos h, rounded, hwhole, roundQuotient_one, hscaled,
      div_mul_cancel₀ _ (two_zpow_pos _).ne']

end Binary

end VersionFloor.Decimal
