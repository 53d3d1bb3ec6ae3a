import Mathlib.Data.List.DropRight
import VersionFloor.Proofs.Catalog.Draft
import VersionFloor.Proofs.Data.Json.Number
import VersionFloor.Proofs.Decimal.Shortest
import VersionFloor.Proofs.Text.Classes
import VersionFloor.Proofs.Text.Split
import VersionFloor.Text.Digits

/-!
# Versions: those that look like decimal numbers

The segments of such a text are the numbers on the two sides of its point (`Numeral.segments_eq`).
The number nearest to it is printed with the same segments, but for the zeros at the end
(`Numeral.IsShort.exists_text`), and those count unless nothing else stands behind the point
(`Numeral.compareSegments_kept_iff`).
-/

namespace VersionFloor

open Decimal Text
open Data.Json (isAsciiDigit_iff isAsciiDigit_of_mem_toDigits)

/-! ### digits -/

/-- the number that digits stand for -/
def digitsNumber (ds : List Char) : Nat := Nat.ofDigitChars 10 ds 0

theorem digitsValue_eq (ds : List Char) : Version.digitsValue ds = digitsNumber ds := by
  rw [Version.digitsValue, digitsNumber, Nat.ofDigitChars_eq_foldl]
  congr
  funext n c
  rw [Nat.mul_comm]
  rfl

theorem digitsNumber_append (ds es : List Char) :
    digitsNumber (ds ++ es) = digitsNumber ds * 10 ^ es.length + digitsNumber es := by
  rw [digitsNumber, Nat.ofDigitChars_append, Nat.ofDigitChars_eq_ofDigitChars_zero, Nat.mul_comm]
  rfl

theorem digitsNumber_toDigits (n : Nat) : digitsNumber (Nat.toDigits 10 n) = n :=
  Nat.ofDigitChars_toDigits (by decide) (by decide)

theorem digitsNumber_zeros (n : Nat) : digitsNumber (List.replicate n '0') = 0 := by
  rw [digitsNumber, Nat.ofDigitChars_replicate_zero, Nat.mul_zero]

theorem digitsNumber_singleton (c : Char) : digitsNumber [c] = c.toNat - 48 := by
  rw [digitsNumber, Nat.ofDigitChars_cons, Nat.ofDigitChars_nil, Nat.mul_zero, Nat.zero_add]
  rfl

theorem digitsNumber_lt {ds : List Char} (h : ∀ c ∈ ds, isAsciiDigit c = true) :
    digitsNumber ds < 10 ^ ds.length := by
  induction ds with
  | nil => decide
  | cons c ds ih =>
    have hc := (isAsciiDigit_iff c).mp (h c List.mem_cons_self)
    have hds := ih fun d hd => h d (List.mem_cons_of_mem _ hd)
    rw [← List.singleton_append, digitsNumber_append, digitsNumber_singleton, List.length_append,
      Nat.pow_add]
    have hle : (c.toNat - 48) * 10 ^ ds.length ≤ 9 * 10 ^ ds.length :=
      Nat.mul_le_mul_right _ (by omega)
    rw [List.length_singleton, Nat.pow_one]
    omega

theorem digitOf?_eq {c : Char} (h : isAsciiDigit c = true) :
    digitOf? 10 c = some (c.toNat - 48) := by
  have hc := (isAsciiDigit_iff c).mp h
  rw [isAsciiDigit, Bool.and_eq_true, decide_eq_true_iff, decide_eq_true_iff] at h
  rw [digitOf?, if_pos h]
  exact if_pos (by omega)

theorem digitsOf?_eq {ds : List Char} (hne : ds ≠ []) (h : ∀ c ∈ ds, isAsciiDigit c = true) :
    digitsOf? 10 ds = some (digitsNumber ds) := by
  have hfold (acc : Nat) : ds.foldlM (fun n c => (digitOf? 10 c).map (n * 10 + ·)) acc =
      some (Nat.ofDigitChars 10 ds acc) := by
    clear hne
    induction ds generalizing acc with
    | nil => rfl
    | cons c ds ih =>
      rw [List.foldlM_cons, digitOf?_eq (h c List.mem_cons_self), Nat.ofDigitChars_cons,
        Nat.mul_comm 10]
      exact ih (fun d hd => h d (List.mem_cons_of_mem _ hd)) _
  rw [digitsOf?, if_neg hne, hfold]
  rfl

/-! ### segments -/

namespace Version

/-- fewer digits than a word can hold -/
theorem segment_of_digits {ds : List Char} (h : ∀ c ∈ ds, isAsciiDigit c = true)
    (hsize : digitsNumber ds < segmentLimit) : segment ds = digitsNumber ds := by
  have hblank : ∀ c ∈ ds, isBlank c = false := fun c hc => isBlank_of_isAsciiDigit (h c hc)
  rw [segment, trimBy_of_none hblank, List.takeWhile_eq_self_iff.mpr h, digitsValue_eq,
    if_pos hsize]

theorem exists_parse? {s : List Char} (hne : s ≠ []) (h : ∀ c ∈ s, isBlank c = false) :
    ∃ v, parse? (String.ofList s) = some v ∧ v.text = String.ofList s := by
  have htrim : trim (String.ofList s) = String.ofList s := by
    rw [trim, String.toList_ofList, trimBy_of_none h]
  have hwritten : nonBlank? (String.ofList s) = some (String.ofList s) :=
    nonBlank?_eq_self_iff.mpr ⟨fun he => hne (by simpa using congrArg String.toList he), htrim⟩
  rw [← text_parse?] at hwritten
  exact Option.map_eq_some_iff.mp hwritten

/-- digits alone are one segment -/
theorem exists_parse?_digits {ds : List Char} (hne : ds ≠ [])
    (h : ∀ c ∈ ds, isAsciiDigit c = true) (hsize : digitsNumber ds < segmentLimit) :
    ∃ v, parse? (String.ofList ds) = some v ∧ v.segments = [digitsNumber ds] := by
  obtain ⟨v, hv, htext⟩ := exists_parse? hne fun c hc => isBlank_of_isAsciiDigit (h c hc)
  have hpoint : '.' ∉ ds := fun hmem => absurd (h _ hmem) (by decide)
  refine ⟨v, hv, ?_⟩
  rw [segments, htext, String.toList_ofList, splitAll_of_not_mem hpoint, List.map_singleton,
    segment_of_digits h hsize]

end Version

/-- digits, a point and digits -/
structure Numeral where
  whole : List Char
  fraction : List Char
  whole_ne_nil : whole ≠ []
  fraction_ne_nil : fraction ≠ []
  isAsciiDigit_whole : ∀ c ∈ whole, isAsciiDigit c = true
  isAsciiDigit_fraction : ∀ c ∈ fraction, isAsciiDigit c = true

namespace Numeral

def text (n : Numeral) : List Char := n.whole ++ '.' :: n.fraction

/-- the number is `digits / 10 ^ places` -/
def digits (n : Numeral) : Nat := digitsNumber (n.whole ++ n.fraction)

def places (n : Numeral) : Nat := n.fraction.length

theorem digits_eq (n : Numeral) :
    n.digits = digitsNumber n.whole * 10 ^ n.places + digitsNumber n.fraction :=
  digitsNumber_append _ _

theorem whole_le_digits (n : Numeral) : digitsNumber n.whole ≤ n.digits := by
  have hpow : 0 < 10 ^ n.places := by positivity
  rw [n.digits_eq]
  exact (Nat.le_mul_of_pos_right _ hpow).trans (Nat.le_add_right _ _)

theorem fraction_le_digits (n : Numeral) : digitsNumber n.fraction ≤ n.digits := by
  rw [n.digits_eq]
  exact Nat.le_add_left _ _

theorem of_mem_text (n : Numeral) {c : Char} (hc : c ∈ n.text) :
    isAsciiDigit c = true ∨ c = '.' := by
  rcases List.mem_append.mp hc with hc | hc
  · exact .inl (n.isAsciiDigit_whole c hc)
  · rcases List.mem_cons.mp hc with rfl | hc
    · exact .inr rfl
    · exact .inl (n.isAsciiDigit_fraction c hc)

/-- **The segments are the numbers on the two sides of the point.** -/
theorem segments_eq (n : Numeral) (hsize : n.digits < Version.segmentLimit) :
    ∃ v, Version.parse? (String.ofList n.text) = some v ∧
      v.segments = [digitsNumber n.whole, digitsNumber n.fraction] := by
  have hblank : ∀ c ∈ n.text, isBlank c = false := by
    intro c hc
    rcases n.of_mem_text hc with hc | rfl
    · exact isBlank_of_isAsciiDigit hc
    · decide
  obtain ⟨v, hv, htext⟩ :=
    Version.exists_parse? (List.append_ne_nil_of_left_ne_nil n.whole_ne_nil _) hblank
  have hpoint {ds : List Char} (h : ∀ c ∈ ds, isAsciiDigit c = true) : '.' ∉ ds :=
    fun hmem => absurd (h _ hmem) (by decide)
  refine ⟨v, hv, ?_⟩
  rw [Version.segments, htext, String.toList_ofList, splitAll_append (hpoint n.isAsciiDigit_whole),
    splitAll_of_not_mem (hpoint n.isAsciiDigit_fraction), List.map_cons, List.map_singleton,
    Version.segment_of_digits n.isAsciiDigit_whole (n.whole_le_digits.trans_lt hsize),
    Version.segment_of_digits n.isAsciiDigit_fraction (n.fraction_le_digits.trans_lt hsize)]

end Numeral

/-! ### numbers that are printed -/

/-- a number without places behind the point is one segment -/
theorem exists_parse?_positional_whole {d : Nat} {q : Int} (hq : 0 ≤ q)
    (hsize : d * 10 ^ q.natAbs < Version.segmentLimit) :
    ∃ w, Version.parse? (positional d q) = some w ∧ w.segments = [d * 10 ^ q.natAbs] := by
  have hdigits : ∀ c ∈ Nat.toDigits 10 d ++ List.replicate q.natAbs '0', isAsciiDigit c = true := by
    intro c hc
    rcases List.mem_append.mp hc with hc | hc
    · exact isAsciiDigit_of_mem_toDigits hc
    · rw [List.eq_of_mem_replicate hc]
      decide
  have hnumber : digitsNumber (Nat.toDigits 10 d ++ List.replicate q.natAbs '0') =
      d * 10 ^ q.natAbs := by
    rw [digitsNumber_append, digitsNumber_toDigits, digitsNumber_zeros, List.length_replicate,
      Nat.add_zero]
  have hne : Nat.toDigits 10 d ++ List.replicate q.natAbs '0' ≠ [] :=
    List.append_ne_nil_of_left_ne_nil Nat.toDigits_ne_nil _
  obtain ⟨w, hw, hsegments⟩ := Version.exists_parse?_digits hne hdigits (by rwa [hnumber])
  rw [hnumber] at hsegments
  refine ⟨w, ?_, hsegments⟩
  rw [positional, if_pos hq]
  exact hw

/-- a number with places behind the point is written as such a numeral -/
theorem exists_numeral_positional (d : Nat) {q : Int} (hq : q < 0) :
    ∃ n : Numeral, positional d q = String.ofList n.text ∧ n.places = q.natAbs ∧ n.digits = d := by
  have hdigit : ∀ c ∈ Nat.toDigits 10 d, isAsciiDigit c = true :=
    fun c hc => isAsciiDigit_of_mem_toDigits hc
  have hpos : 0 < (Nat.toDigits 10 d).length := Nat.length_toDigits_pos
  rw [positional, if_neg (by omega)]
  split
  · rename_i hshort
    let front := (Nat.toDigits 10 d).length - q.natAbs
    refine ⟨⟨(Nat.toDigits 10 d).take front, (Nat.toDigits 10 d).drop front, ?_, ?_,
      fun c hc => hdigit c (List.mem_of_mem_take hc),
      fun c hc => hdigit c (List.mem_of_mem_drop hc)⟩, rfl, ?_, ?_⟩
    · rw [← List.length_pos_iff, List.length_take]
      omega
    · rw [← List.length_pos_iff, List.length_drop]
      omega
    · rw [Numeral.places, List.length_drop]
      omega
    · rw [Numeral.digits, List.take_append_drop, digitsNumber_toDigits]
  · rename_i hlong
    let zeros := List.replicate (q.natAbs - (Nat.toDigits 10 d).length) '0'
    have hzeros : ∀ c ∈ zeros ++ Nat.toDigits 10 d, isAsciiDigit c = true := by
      intro c hc
      rcases List.mem_append.mp hc with hc | hc
      · rw [List.eq_of_mem_replicate hc]
        decide
      · exact hdigit c hc
    refine ⟨⟨['0'], zeros ++ Nat.toDigits 10 d, List.cons_ne_nil _ _,
      List.append_ne_nil_of_right_ne_nil _ Nat.toDigits_ne_nil,
      List.forall_mem_singleton.mpr rfl, hzeros⟩, rfl, ?_, ?_⟩
    · rw [Numeral.places, List.length_append, List.length_replicate]
      omega
    · rw [Numeral.digits, digitsNumber_append, digitsNumber_append, digitsNumber_zeros,
        digitsNumber_toDigits, Nat.zero_mul, Nat.zero_add, show digitsNumber ['0'] = 0 from rfl,
        Nat.zero_mul, Nat.zero_add]

/-! ### the zeros at the end -/

/-- a multiple of a power of ten has its last digits in front of the zeros at one place only -/
theorem eq_of_mul_pow_eq {a b s t : Nat} (ha : ¬ 10 ∣ a) (hb : ¬ 10 ∣ b)
    (h : a * 10 ^ s = b * 10 ^ t) : a = b := by
  have hle {a b s t : Nat} (ha : ¬ 10 ∣ a) (h : a * 10 ^ s = b * 10 ^ t) : t ≤ s := by
    by_contra hlt
    obtain ⟨u, rfl⟩ := Nat.exists_eq_add_of_lt (not_le.mp hlt)
    have hpos : 0 < 10 ^ s := by positivity
    have heq : a = b * 10 ^ u * 10 := by
      refine Nat.eq_of_mul_eq_mul_right hpos ?_
      rw [h, Nat.pow_succ, Nat.pow_add]
      ring
    exact ha (heq ▸ Nat.dvd_mul_left 10 _)
  obtain rfl : s = t := le_antisymm (hle hb h.symm) (hle ha h)
  exact Nat.eq_of_mul_eq_mul_right (by positivity) h

/-- the two sides of a point are known by the number -/
theorem eq_of_sides {m f m' f' p : Nat} (hf : f < p) (hf' : f' < p) (h : m * p + f = m' * p + f') :
    m = m' ∧ f = f' := by
  have hp : 0 < p := Nat.zero_lt_of_lt hf
  have hm : m = m' := by
    have hdiv := congrArg (· / p) h
    simpa only [Nat.mul_comm _ p, Nat.mul_add_div hp, Nat.div_eq_of_lt hf, Nat.div_eq_of_lt hf',
      Nat.add_zero] using hdiv
  subst hm
  exact ⟨rfl, Nat.add_left_cancel h⟩

namespace Numeral

variable (n : Numeral)

/-- the digits behind the point without the zeros at their end -/
def kept : List Char := n.fraction.rdropWhile (· == '0')

theorem exists_kept : ∃ t, digitsNumber n.fraction = digitsNumber n.kept * 10 ^ t := by
  let zeros := n.fraction.rtakeWhile (· == '0')
  have hsplit : n.kept ++ zeros = n.fraction := List.rdropWhile_append_rtakeWhile
  have hzero (c : Char) (hc : c ∈ zeros) : c = '0' :=
    beq_iff_eq.mp (List.mem_rtakeWhile_imp (p := (· == '0')) hc)
  have hzeros : zeros = List.replicate zeros.length '0' := List.eq_replicate_iff.mpr ⟨rfl, hzero⟩
  have hnumber : digitsNumber zeros = 0 := by rw [hzeros, digitsNumber_zeros]
  exact ⟨zeros.length, by rw [← hsplit, digitsNumber_append, hnumber, Nat.add_zero]⟩

theorem kept_eq_zero (h : digitsNumber n.fraction = 0) : digitsNumber n.kept = 0 := by
  obtain ⟨t, ht⟩ := n.exists_kept
  rw [h, eq_comm, Nat.mul_eq_zero] at ht
  exact ht.resolve_right (by positivity)

theorem not_dvd_kept (h : n.kept ≠ []) : ¬ 10 ∣ digitsNumber n.kept := by
  have hlast := List.rdropWhile_last_not (· == '0') n.fraction h
  have hmem : n.kept.getLast h ∈ n.fraction :=
    (List.rdropWhile_prefix (· == '0') n.fraction).subset (List.getLast_mem h)
  have hdigit := (isAsciiDigit_iff _).mp (n.isAsciiDigit_fraction _ hmem)
  have hzero : (n.kept.getLast h).toNat ≠ 48 := by
    intro h48
    refine hlast (beq_iff_eq.mpr (Char.toNat_inj.mp ?_))
    exact h48
  rw [← List.dropLast_append_getLast h, digitsNumber_append, digitsNumber_singleton,
    List.length_singleton, Nat.pow_one]
  omega

/-- only zeros behind the point are all dropped -/
theorem kept_eq_nil_iff : n.kept = [] ↔ ∀ c ∈ n.fraction, c = '0' := by
  rw [kept, List.rdropWhile_eq_nil_iff]
  simp only [beq_iff_eq]

/-- the dropped zeros count unless nothing else stands behind the point -/
theorem compareSegments_kept_iff :
    Version.compareSegments [digitsNumber n.whole, digitsNumber n.kept]
        [digitsNumber n.whole, digitsNumber n.fraction] = .eq ↔
      (∀ c ∈ n.fraction, c = '0') ∨ n.fraction.getLast? ≠ some '0' := by
  have hsegments : Version.compareSegments [digitsNumber n.whole, digitsNumber n.kept]
      [digitsNumber n.whole, digitsNumber n.fraction] = .eq ↔
        digitsNumber n.kept = digitsNumber n.fraction := by
    simp [Version.compareSegments]
  rw [hsegments]
  constructor
  · intro heq
    by_cases hnil : n.kept = []
    · exact .inl (n.kept_eq_nil_iff.mp hnil)
    · refine .inr fun hlast => n.not_dvd_kept hnil ?_
      obtain ⟨front, hfront⟩ := List.getLast?_eq_some_iff.mp hlast
      rw [heq, hfront, digitsNumber_append, show digitsNumber ['0'] = 0 from rfl, Nat.add_zero]
      exact Nat.dvd_mul_left 10 (digitsNumber front)
  · rintro (hzeros | hlast)
    · obtain ⟨t, ht⟩ := n.exists_kept
      rw [ht, n.kept_eq_nil_iff.mpr hzeros]
      simp [digitsNumber]
    · have hkept : n.kept = n.fraction := by
        rw [kept, List.rdropWhile_eq_self_iff]
        intro hne hzero
        rw [List.getLast?_eq_getLast_of_ne_nil hne] at hlast
        exact hlast (congrArg some (beq_iff_eq.mp hzero))
      rw [hkept]

/-- the number in front of the zeros -/
theorem eq_kept {a k : Nat} (ha : ¬ 10 ∣ a) (h : a * 10 ^ k = digitsNumber n.fraction) :
    a = digitsNumber n.kept := by
  obtain ⟨t, ht⟩ := n.exists_kept
  have hkept : n.kept ≠ [] := by
    intro hnil
    rw [hnil, show digitsNumber [] = 0 from rfl, Nat.zero_mul] at ht
    rw [ht, Nat.mul_eq_zero] at h
    rcases h with h0 | h0
    · exact ha (h0 ▸ Nat.dvd_zero 10)
    · exact absurd h0 (by positivity)
  exact eq_of_mul_pow_eq ha (n.not_dvd_kept hkept) (h.trans ht)

/-- more places for the same number are zeros at the end -/
theorem sides_eq {m : Numeral} {k : Nat} (hplaces : n.places = m.places + k)
    (hdigits : m.digits * 10 ^ k = n.digits) :
    digitsNumber m.whole = digitsNumber n.whole ∧
      digitsNumber m.fraction * 10 ^ k = digitsNumber n.fraction := by
  have hsmall : digitsNumber m.fraction * 10 ^ k < 10 ^ n.places := by
    rw [hplaces, Nat.pow_add]
    exact Nat.mul_lt_mul_of_pos_right (digitsNumber_lt m.isAsciiDigit_fraction) (by positivity)
  have hsum : digitsNumber m.whole * 10 ^ n.places + digitsNumber m.fraction * 10 ^ k =
      digitsNumber n.whole * 10 ^ n.places + digitsNumber n.fraction := by
    rw [← n.digits_eq, ← hdigits, m.digits_eq, Nat.add_mul, Nat.mul_assoc, ← Nat.pow_add,
      ← hplaces]
  exact eq_of_sides hsmall (digitsNumber_lt n.isAsciiDigit_fraction) hsum

/-- a number that does not end in a zero has no more places than the numeral -/
theorem neg_places_le {d : Nat} {q : Int} (hd : ¬ 10 ∣ d)
    (hvalue : (d : ℚ) * 10 ^ q = n.digits * 10 ^ (-n.places : Int)) : -(n.places : Int) ≤ q := by
  by_contra hlt
  obtain ⟨k, hk⟩ := Int.le.dest (Int.le_of_lt (not_le.mp hlt))
  have heq := mul_pow_eq_of_mul_ten_zpow hk hvalue.symm
  obtain ⟨k, rfl⟩ := Nat.exists_eq_add_one_of_ne_zero (show k ≠ 0 by omega)
  exact hd (heq ▸ Dvd.intro_left _ (by rw [Nat.pow_succ, Nat.mul_assoc]))

/-- **What is printed has the segments of the numeral**, but for the zeros at its end. -/
theorem exists_parse?_positional {d : Nat} {q : Int} (hd : ¬ 10 ∣ d)
    (hsize : n.digits < Version.segmentLimit)
    (hvalue : (d : ℚ) * 10 ^ q = n.digits * 10 ^ (-n.places : Int)) :
    ∃ w, Version.parse? (positional d q) = some w ∧
      Version.compareSegments w.segments [digitsNumber n.whole, digitsNumber n.kept] = .eq := by
  have hle := n.neg_places_le hd hvalue
  rcases lt_or_ge q 0 with hq | hq
  · -- the printed digits have their own point, and no zero at their end
    obtain ⟨m, hm, hplaces, hdigits⟩ := exists_numeral_positional d hq
    obtain ⟨k, hk⟩ := Int.le.dest hle
    have heq : d * 10 ^ k = n.digits := mul_pow_eq_of_mul_ten_zpow hk hvalue
    obtain ⟨hwhole, hbehind⟩ := n.sides_eq (m := m) (k := k) (by omega) (hdigits ▸ heq)
    have hlast : ¬ 10 ∣ digitsNumber m.fraction := by
      intro hdvd
      have hten : 10 ∣ 10 ^ m.places := dvd_pow_self 10 (by omega)
      exact hd (hdigits ▸ m.digits_eq ▸ Nat.dvd_add (hten.mul_left _) hdvd)
    have hless : m.digits ≤ n.digits := by
      have hpos : 0 < 10 ^ k := by positivity
      rw [hdigits, ← heq]
      exact Nat.le_mul_of_pos_right d hpos
    obtain ⟨w, hw, hsegments⟩ := m.segments_eq (hless.trans_lt hsize)
    refine ⟨w, by rw [hm, hw], ?_⟩
    rw [hsegments, hwhole, n.eq_kept hlast hbehind]
    exact Std.ReflCmp.compare_self
  · -- all of the digits behind the point are zeros
    have heq : d * 10 ^ (q.natAbs + n.places) = n.digits :=
      mul_pow_eq_of_mul_ten_zpow (by omega) hvalue
    have hsum : d * 10 ^ q.natAbs * 10 ^ n.places + 0 =
        digitsNumber n.whole * 10 ^ n.places + digitsNumber n.fraction := by
      rw [Nat.mul_assoc, ← Nat.pow_add, heq, n.digits_eq, Nat.add_zero]
    obtain ⟨hwhole, hbehind⟩ :=
      eq_of_sides (by positivity) (digitsNumber_lt n.isAsciiDigit_fraction) hsum
    have hkept : digitsNumber n.kept = 0 := n.kept_eq_zero hbehind.symm
    obtain ⟨w, hw, hsegments⟩ := exists_parse?_positional_whole hq
      (hwhole ▸ n.whole_le_digits.trans_lt hsize)
    refine ⟨w, hw, ?_⟩
    rw [hsegments, hwhole, hkept]
    simp [Version.compareSegments]

/-! ### numbers that are read -/

/-- as many digits as every floating point number keeps -/
def IsShort : Prop := n.whole.length + n.fraction.length ≤ 15

variable {n}

theorem IsShort.places_le (h : n.IsShort) : n.places ≤ 15 :=
  (Nat.le_add_left _ _).trans h

theorem IsShort.digits_lt (h : n.IsShort) : n.digits < 10 ^ 15 := by
  have hdigit : ∀ c ∈ n.whole ++ n.fraction, isAsciiDigit c = true := fun c hc =>
    (List.mem_append.mp hc).elim (n.isAsciiDigit_whole c) (n.isAsciiDigit_fraction c)
  have hlt := digitsNumber_lt hdigit
  rw [List.length_append] at hlt
  exact hlt.trans_le (Nat.pow_le_pow_right (by decide) h)

/-- the number that a short numeral is read as, and the version that it is printed as -/
theorem IsShort.exists_text (h : n.IsShort) :
    ∃ b w, Binary.ofDecimal? n.digits (-n.places : Int) = some b ∧
      Version.parse? b.text = some w ∧
      Version.compareSegments w.segments [digitsNumber n.whole, digitsNumber n.kept] = .eq := by
  have hdigits := h.digits_lt
  have hplaces := h.places_le
  rcases Nat.eq_zero_or_pos n.digits with hzero | hpos
  · -- zero is printed as it is, whatever the places
    have hwhole : digitsNumber n.whole = 0 := Nat.le_zero.mp (hzero ▸ n.whole_le_digits)
    have hkept : digitsNumber n.kept = 0 :=
      n.kept_eq_zero (Nat.le_zero.mp (hzero ▸ n.fraction_le_digits))
    obtain ⟨w, hw, hsegments⟩ := Version.exists_parse?_digits (List.cons_ne_nil '0' [])
      (List.forall_mem_singleton.mpr rfl) (by decide)
    refine ⟨Binary.zero, w, by rw [hzero]; rfl, hw, ?_⟩
    rw [hsegments, hwhole, hkept, show digitsNumber ['0'] = 0 from rfl]
    simp [Version.compareSegments]
  · have hpow : 0 < 10 ^ n.places := by positivity
    have hsize : (n.digits : ℚ) / (10 ^ n.places : Nat) < 2 ^ (64 : Int) := by
      have hle : (n.digits : ℚ) / (10 ^ n.places : Nat) ≤ n.digits :=
        div_le_self (Nat.cast_nonneg _) (by exact_mod_cast hpow)
      have hlt : (n.digits : ℚ) < 10 ^ 15 := by exact_mod_cast hdigits
      exact (hle.trans_lt hlt).trans (by norm_num)
    obtain ⟨b, hb⟩ := Binary.exists_ofRatio? hpow hsize
    rw [← Binary.ofDecimal?_neg hdigits hplaces] at hb
    obtain ⟨d, q, htext, hsame, hd⟩ :=
      Binary.text_of_ofDecimal? hpos hdigits (by omega) (by omega) hb
    obtain ⟨w, hw, hsegments⟩ :=
      n.exists_parse?_positional hd (hdigits.trans (by decide)) hsame
    exact ⟨b, w, hb, htext ▸ hw, hsegments⟩

end Numeral

end VersionFloor
