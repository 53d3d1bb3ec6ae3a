import VersionFloor.Proofs.Text.Classes
import VersionFloor.Proofs.Text.Utf8

/-!
# Text: two ways to be equal up to case

Texts that differ only in the case of ASCII letters have the same small letters
(`lower_eq_of_sameAscii`); the other way round this holds of ASCII texts only
(`sameAscii_of_lower_eq`).  No blank comes or goes in lower case (`countP_isBlank_lower`).
-/

namespace VersionFloor.Text

/-! ### neighbours -/

theorem isCased_asciiLower (c : Char) : isCased (asciiLower c) = isCased c := by
  cases hc : isAscii c with
  | true =>
    exact beq_iff_eq.mp
      (of_isAscii (p := fun c => isCased (asciiLower c) == isCased c) (by decide +kernel) hc)
  | false => rw [asciiLower_of_not_isAscii hc]

theorem isCaseIgnorable_asciiLower (c : Char) :
    isCaseIgnorable (asciiLower c) = isCaseIgnorable c := by
  cases hc : isAscii c with
  | true =>
    exact beq_iff_eq.mp
      (of_isAscii (p := fun c => isCaseIgnorable (asciiLower c) == isCaseIgnorable c)
        (by decide +kernel) hc)
  | false => rw [asciiLower_of_not_isAscii hc]

theorem leadsCased_map_asciiLower (s : List Char) :
    leadsCased (s.map asciiLower) = leadsCased s := by
  have hskip : (s.map asciiLower).dropWhile isCaseIgnorable =
      (s.dropWhile isCaseIgnorable).map asciiLower := by
    rw [List.dropWhile_map]
    congr 2
    exact funext isCaseIgnorable_asciiLower
  rw [leadsCased, leadsCased, hskip]
  cases s.dropWhile isCaseIgnorable with
  | nil => rfl
  | cons c rest => exact isCased_asciiLower c

/-! ### small letters -/

theorem lowerChar_asciiLower (c : Char) : lowerChar (asciiLower c) = lowerChar c := by
  cases hc : isAscii c with
  | true =>
    exact beq_iff_eq.mp
      (of_isAscii (p := fun c => lowerChar (asciiLower c) == lowerChar c) (by decide +kernel) hc)
  | false => rw [asciiLower_of_not_isAscii hc]

theorem ne_of_asciiLower {c d : Char} (hd : isAscii d = false) (h : c ≠ d) : asciiLower c ≠ d := by
  intro he
  have hc : isAscii c = false := by rw [← isAscii_asciiLower, he, hd]
  exact h ((asciiLower_of_not_isAscii hc).symm.trans he)

/-- no letter depends on the case of an ASCII letter, be it its own or that of a neighbour -/
theorem lowerFrom_map_asciiLower (before s : List Char) :
    lowerFrom (before.map asciiLower) (s.map asciiLower) = lowerFrom before s := by
  fun_induction lowerFrom before s with
  | case1 => rfl
  | case2 before rest ih =>
    have hsigma : asciiLower 'Σ' = 'Σ' := rfl
    rw [List.map_cons, hsigma, lowerFrom, leadsCased_map_asciiLower, leadsCased_map_asciiLower]
    exact congrArg _ ih
  | case3 before rest ih =>
    have hdotted : asciiLower 'İ' = 'İ' := rfl
    rw [List.map_cons, hdotted, lowerFrom]
    exact congrArg ('i' :: '\u0307' :: ·) ih
  | case4 before c rest hsigma hdotted ih =>
    rw [List.map_cons, lowerFrom, lowerChar_asciiLower]
    · exact congrArg _ ih
    · exact ne_of_asciiLower (by decide) hsigma
    · exact ne_of_asciiLower (by decide) hdotted

/-- **Texts that are the same up to the case of ASCII letters are so in lower case.** -/
theorem lower_eq_of_sameAscii {a b : String} (h : sameAscii a b = true) : lower a = lower b := by
  have hab : a.toList.map asciiLower = b.toList.map asciiLower := beq_iff_eq.mp h
  have ha := lowerFrom_map_asciiLower [] a.toList
  have hb := lowerFrom_map_asciiLower [] b.toList
  rw [lower, lower, ← ha, ← hb, hab]

theorem sameAscii_of_lower_eq {a b : String} (ha : ∀ c ∈ a.toList, isAscii c = true)
    (hb : ∀ c ∈ b.toList, isAscii c = true) (h : lower a = lower b) : sameAscii a b = true := by
  rw [sameAscii, ← toList_lower_of_isAscii ha, ← toList_lower_of_isAscii hb, h]
  exact beq_self_eq_true _

/-! ### blanks -/

/-- no capital has a blank for its small letter -/
theorem isBlank_ofNat_of_holds {r : CaseRun} (hr : r ∈ caseRuns) {n : Nat}
    (h : r.holds n = true) : isBlank (Char.ofNat (n + r.rise).toNat) = false := by
  -- from a blank, no row of the table leads back to a capital of its own
  have hnone : (caseRuns.all fun r => blanks.all fun b =>
      !r.holds ((b.toNat : Int) - r.rise).toNat) = true := by decide +kernel
  by_cases hvalid : (n + r.rise).toNat.isValidChar
  · by_contra hblank
    rw [Bool.not_eq_false] at hblank
    have hmem := List.all_eq_true.mp (List.all_eq_true.mp hnone r hr) _ (mem_blanks hblank)
    have hpos : (n + r.rise).toNat ≠ 0 := by
      intro hzero
      rw [hzero] at hblank
      cases hblank
    have hback : (((n + r.rise).toNat : Int) - r.rise).toNat = n := by omega
    rw [toNat_ofNat hvalid, hback, h] at hmem
    cases hmem
  · rw [Char.ofNat, dif_neg hvalid]
    decide

theorem isBlank_lowerChar (c : Char) : isBlank (lowerChar c) = isBlank c := by
  cases hblank : isBlank c with
  | true =>
    have hsame : (lowerChar c != c) = false :=
      of_isBlank (p := fun c => lowerChar c != c) (by decide +kernel) hblank
    rw [bne_eq_false_iff_eq.mp hsame, hblank]
  | false =>
    rw [lowerChar]
    split
    · rename_i hascii
      have hsame := of_isAscii (p := fun c => isBlank (asciiLower c) == isBlank c)
        (by decide +kernel) (decide_eq_true hascii)
      rw [beq_iff_eq.mp hsame, hblank]
    · split
      · rename_i r hfind
        exact isBlank_ofNat_of_holds (List.mem_of_find?_eq_some hfind)
          (List.find?_some (p := fun r : CaseRun => r.holds c.toNat) hfind)
      · exact hblank

theorem countP_isBlank_lowerFrom (before s : List Char) :
    (lowerFrom before s).countP isBlank = s.countP isBlank := by
  fun_induction lowerFrom before s with
  | case1 => rfl
  | case2 before rest ih =>
    have hsmall : ¬isBlank (if leadsCased before && !leadsCased rest then 'ς' else 'σ') = true := by
      split <;> decide
    rw [List.countP_cons_of_neg hsmall, List.countP_cons_of_neg (by decide), ih]
  | case3 before rest ih =>
    rw [List.countP_cons_of_neg (by decide), List.countP_cons_of_neg (by decide),
      List.countP_cons_of_neg (by decide), ih]
  | case4 before c rest hsigma hdotted ih =>
    rw [List.countP_cons, List.countP_cons, isBlank_lowerChar, ih]

theorem countP_isBlank_lower (s : String) :
    (lower s).toList.countP isBlank = s.toList.countP isBlank := by
  rw [lower, String.toList_ofList, countP_isBlank_lowerFrom]

end VersionFloor.Text
