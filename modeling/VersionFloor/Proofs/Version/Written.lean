import VersionFloor.Proofs.Version.Lawful
import VersionFloor.Proofs.Version.Numeral

/-!
# Versions: segments of any size

`writtenNumbers` are the numbers that a text is written with; a version keeps those that fit a word,
and zero for the others (`segments_eq_kept`).  So versions compare by the numbers that are written
as long as these fit, and by others only where one does not (`exceeds_written`).
-/

namespace VersionFloor.Version

open Text
open Data.Json (isAsciiDigit_of_mem_toDigits)

/-! ### the numbers that are written -/

/-- the number of the digits that a segment starts with, however many they are -/
def writtenNumber (s : List Char) : Nat :=
  digitsNumber ((trimBy isBlank s).takeWhile isAsciiDigit)

/-- the numbers between the points of a text -/
def writtenNumbers (s : String) : List Nat := (splitAll '.' s.toList).map writtenNumber

/-- what a word keeps of a number -/
def kept (n : Nat) : Nat := if n < segmentLimit then n else 0

/-- every number of the text fits a word -/
def Fits (s : String) : Prop := ∀ n ∈ writtenNumbers s, n < segmentLimit

/-- greater at the first place where they differ, both filled up with zeros -/
def IsGreater (a b : List Nat) : Prop :=
  ∃ i : Nat, (∀ j < i, a[j]?.getD 0 = b[j]?.getD 0) ∧ b[i]?.getD 0 < a[i]?.getD 0

theorem kept_eq_self {n : Nat} (h : n < segmentLimit) : kept n = n := if_pos h

theorem kept_eq_zero {n : Nat} (h : segmentLimit ≤ n) : kept n = 0 := if_neg (Nat.not_lt.mpr h)

theorem kept_lt (n : Nat) : kept n < segmentLimit := by
  rcases Nat.lt_or_ge n segmentLimit with h | h
  · rwa [kept_eq_self h]
  · rw [kept_eq_zero h]
    decide

/-- of two numbers a word keeps less of the larger one just where that one does not fit -/
theorem kept_lt_kept_iff {m n : Nat} (h : m < n) :
    kept n < kept m ↔ 0 < m ∧ m < segmentLimit ∧ segmentLimit ≤ n := by
  rcases Nat.lt_or_ge n segmentLimit with hn | hn
  · rw [kept_eq_self hn, kept_eq_self (h.trans hn)]
    omega
  · rw [kept_eq_zero hn]
    rcases Nat.lt_or_ge m segmentLimit with hm | hm
    · rw [kept_eq_self hm]
      omega
    · rw [kept_eq_zero hm]
      omega

theorem segment_eq_kept (s : List Char) : segment s = kept (writtenNumber s) := by
  rw [segment, digitsValue_eq]
  rfl

/-! ### blanks count for nothing -/

theorem writtenNumber_eq (s : List Char) :
    writtenNumber s = digitsNumber ((s.dropWhile isBlank).takeWhile isAsciiDigit) := by
  rw [writtenNumber, ← trimBy_split, takeWhile_append_of_none]
  exact fun c hc => isAsciiDigit_of_isBlank (List.mem_takeWhile_imp (List.mem_reverse.mp hc))

section

variable {blanks : List Char} (h : ∀ c ∈ blanks, isBlank c = true) (s : List Char)

include h

theorem writtenNumber_blanks_append : writtenNumber (blanks ++ s) = writtenNumber s := by
  rw [writtenNumber_eq, List.dropWhile_append_of_pos h, ← writtenNumber_eq]

theorem writtenNumber_append_blanks : writtenNumber (s ++ blanks) = writtenNumber s := by
  rw [writtenNumber_eq, writtenNumber_eq, List.dropWhile_append]
  split
  · rename_i hempty
    rw [List.isEmpty_iff.mp hempty, List.dropWhile_eq_nil_iff.mpr h]
  · exact congrArg digitsNumber
      (takeWhile_append_of_none _ fun c hc => isAsciiDigit_of_isBlank (h c hc))

theorem not_mem_blanks : '.' ∉ blanks := fun hmem => absurd (h _ hmem) (by decide)

theorem map_writtenNumber_blanks_append :
    (splitAll '.' (blanks ++ s)).map writtenNumber = (splitAll '.' s).map writtenNumber := by
  obtain ⟨piece, more, hs⟩ := List.exists_cons_of_ne_nil (splitAll_ne_nil '.' s)
  rw [splitAll_append_of_not_mem (not_mem_blanks h) hs, hs, List.map_cons, List.map_cons,
    writtenNumber_blanks_append h]

theorem map_writtenNumber_append_blanks :
    (splitAll '.' (s ++ blanks)).map writtenNumber = (splitAll '.' s).map writtenNumber := by
  obtain ⟨before, last, hs, hboth⟩ :=
    splitAll_append_of_cons s (splitAll_of_not_mem (not_mem_blanks h))
  rw [hboth, hs, List.map_append, List.map_append, List.map_singleton, List.map_singleton,
    writtenNumber_append_blanks h]

end

theorem writtenNumbers_trim (s : String) : writtenNumbers (trim s) = writtenNumbers s := by
  obtain ⟨front, back, hs, hfront, hback⟩ := exists_trimBy isBlank s.toList
  rw [writtenNumbers, writtenNumbers, trim, String.toList_ofList]
  conv_rhs => rw [hs]
  rw [map_writtenNumber_blanks_append hfront, map_writtenNumber_append_blanks hback]

/-! ### the numbers that are kept -/

/-- a text in which not everything is blank is a version -/
theorem exists_parse?_of_not_blank {s : String} (h : ∃ c ∈ s.toList, isBlank c = false) :
    ∃ v, parse? s = some v := by
  obtain ⟨c, hc, hblank⟩ := h
  have htrim : trim s ≠ "" := by
    intro hempty
    have hnil : trimBy isBlank s.toList = [] := by
      rw [← String.toList_ofList (l := trimBy isBlank s.toList)]
      exact congrArg String.toList hempty
    rw [trimBy_eq_nil_iff.mp hnil c hc] at hblank
    cases hblank
  have hsome : (parse? s).map text = some (trim s) := by
    rw [text_parse?, nonBlank?, if_neg htrim]
  obtain ⟨v, hv, -⟩ := Option.map_eq_some_iff.mp hsome
  exact ⟨v, hv⟩

theorem text_of_parse? {s : String} {v : Version} (h : parse? s = some v) : v.text = trim s := by
  have hnonBlank : nonBlank? s = some v.text := by
    rw [← text_parse?, h]
    rfl
  rw [nonBlank?] at hnonBlank
  split at hnonBlank
  · cases hnonBlank
  · exact (Option.some.inj hnonBlank).symm

/-- **A version keeps the numbers that fit a word**, and zeros for the others. -/
theorem segments_eq_kept {s : String} {v : Version} (h : parse? s = some v) :
    v.segments = (writtenNumbers s).map kept := by
  rw [← writtenNumbers_trim, ← text_of_parse? h, segments, writtenNumbers, List.map_map]
  exact List.map_congr_left fun piece _ => segment_eq_kept piece

theorem map_kept_of_fits {s : String} (h : Fits s) :
    (writtenNumbers s).map kept = writtenNumbers s :=
  (List.map_congr_left fun n hn => kept_eq_self (h n hn)).trans (List.map_id _)

theorem exceeds_iff_isGreater (v w : Version) :
    v.exceeds w = true ↔ IsGreater v.segments w.segments := exceeds_iff v w

/-- numbers of which one does not fit are greater than what is kept of them -/
theorem isGreater_map_kept {ns : List Nat} (h : ∃ n ∈ ns, segmentLimit ≤ n) :
    IsGreater ns (ns.map kept) := by
  induction ns with
  | nil =>
    obtain ⟨n, hn, -⟩ := h
    cases hn
  | cons n ns ih =>
    rcases Nat.lt_or_ge n segmentLimit with hn | hn
    · obtain ⟨m, hm, hle⟩ := h
      rcases List.mem_cons.mp hm with rfl | hm
      · omega
      · obtain ⟨i, hbefore, hgt⟩ := ih ⟨m, hm, hle⟩
        refine ⟨i + 1, fun j hj => ?_, hgt⟩
        cases j with
        | zero => exact (kept_eq_self hn).symm
        | succ j => exact hbefore j (Nat.lt_of_succ_lt_succ hj)
    · refine ⟨0, fun j hj => absurd hj (Nat.not_lt_zero j), ?_⟩
      show kept n < n
      rw [kept_eq_zero hn]
      exact Nat.lt_of_lt_of_le (by decide) hn

/-! ### texts for numbers -/

theorem writtenNumber_toDigits (n : Nat) : writtenNumber (Nat.toDigits 10 n) = n := by
  have hdigit : ∀ c ∈ Nat.toDigits 10 n, isAsciiDigit c = true :=
    fun c hc => isAsciiDigit_of_mem_toDigits hc
  rw [writtenNumber, trimBy_of_none fun c hc => isBlank_of_isAsciiDigit (hdigit c hc),
    List.takeWhile_eq_self_iff.mpr hdigit, digitsNumber_toDigits]

/-- any numbers are those of some version -/
theorem exists_writtenNumbers_eq {ns : List Nat} (hne : ns ≠ []) :
    ∃ s v, parse? s = some v ∧ writtenNumbers s = ns := by
  let pieces := ns.map fun n => String.ofList (Nat.toDigits 10 n)
  let s := joinWith "." pieces
  have hpieces : pieces.map String.toList = ns.map (Nat.toDigits 10) := by
    rw [List.map_map]
    exact List.map_congr_left fun n _ => String.toList_ofList
  have hdigit : ∀ piece ∈ ns.map (Nat.toDigits 10), ∀ c ∈ piece, isAsciiDigit c = true := by
    intro piece hpiece c hc
    obtain ⟨n, -, rfl⟩ := List.mem_map.mp hpiece
    exact isAsciiDigit_of_mem_toDigits hc
  have hsplit : splitAll '.' s.toList = ns.map (Nat.toDigits 10) := by
    rw [← hpieces]
    refine splitAll_joinWith rfl (fun h => hne (List.map_eq_nil_iff.mp h)) fun p hp hmem => ?_
    have hp : p.toList ∈ ns.map (Nat.toDigits 10) := hpieces ▸ List.mem_map_of_mem hp
    exact absurd (hdigit _ hp _ hmem) (by decide)
  have hnumbers : writtenNumbers s = ns := by
    rw [writtenNumbers, hsplit, List.map_map]
    exact (List.map_congr_left fun n _ => writtenNumber_toDigits n).trans (List.map_id _)
  have hsome : ∃ c ∈ s.toList, isBlank c = false := by
    by_contra hnone
    have hall : ∀ c ∈ s.toList, isBlank c = true := by simpa using hnone
    obtain ⟨n, ns, rfl⟩ := List.exists_cons_of_ne_nil hne
    rw [splitAll_of_not_mem (not_mem_blanks hall)] at hsplit
    have hs : s.toList = Nat.toDigits 10 n := (List.cons.inj hsplit).1
    obtain ⟨c, ds, hc⟩ := List.exists_cons_of_ne_nil (hs ▸ Nat.toDigits_ne_nil : s.toList ≠ [])
    have hmem : c ∈ s.toList := hc ▸ List.mem_cons_self
    have hblank := isBlank_of_isAsciiDigit (isAsciiDigit_of_mem_toDigits (hs ▸ hmem))
    rw [hall c hmem] at hblank
    cases hblank
  obtain ⟨v, hv⟩ := exists_parse?_of_not_blank hsome
  exact ⟨s, v, hv, hnumbers⟩

/-! ### digits that are replaced -/

/-- some digits, and nothing else -/
def IsDigits (ds : List Char) : Prop := ds ≠ [] ∧ ∀ c ∈ ds, isAsciiDigit c = true

/-- a text with a gap where a segment has its digits -/
structure Gap where
  front : List Char
  blanks : List Char
  rest : List Char
  front_ends : front = [] ∨ ∃ before, front = before ++ ['.']
  isBlank_blanks : ∀ c ∈ blanks, isBlank c = true
  rest_stops : ∀ c ∈ rest.head?, isAsciiDigit c = false

namespace Gap

variable (g : Gap)

def fill (ds : List Char) : String := String.ofList (g.front ++ (g.blanks ++ ds ++ g.rest))

theorem exists_splitAll_front : ∃ before, splitAll '.' g.front = before ++ [[]] := by
  rcases g.front_ends with hnil | ⟨before, hfront⟩
  · rw [hnil]
    exact ⟨[], rfl⟩
  · have hpoint : splitAll '.' ['.'] = [[], []] := rfl
    obtain ⟨pieces, last, -, hboth⟩ := splitAll_append_of_cons before hpoint
    refine ⟨pieces ++ [last ++ []], ?_⟩
    rw [hfront, hboth, List.append_assoc]
    rfl

theorem writtenNumber_gap {ds piece : List Char} (hds : IsDigits ds)
    (hpiece : ∀ c ∈ piece.head?, isAsciiDigit c = false) :
    writtenNumber (g.blanks ++ ds ++ piece) = digitsNumber ds := by
  have hblank : ∀ c ∈ (ds ++ piece).head?, isBlank c = false := by
    obtain ⟨d, ds', rfl⟩ := List.exists_cons_of_ne_nil hds.1
    intro c hc
    obtain rfl : d = c := Option.some.inj hc
    exact isBlank_of_isAsciiDigit (hds.2 d List.mem_cons_self)
  rw [writtenNumber_eq, List.append_assoc, dropWhile_run g.isBlank_blanks hblank,
    takeWhile_run hds.2 hpiece]

/-- only the number of the digits depends on them -/
theorem exists_writtenNumbers_fill : ∃ before behind, ∀ ds, IsDigits ds →
    writtenNumbers (g.fill ds) = before ++ digitsNumber ds :: behind := by
  obtain ⟨before, hfront⟩ := g.exists_splitAll_front
  obtain ⟨piece, more, hrest⟩ := List.exists_cons_of_ne_nil (splitAll_ne_nil '.' g.rest)
  have hpiece : ∀ c ∈ piece.head?, isAsciiDigit c = false :=
    fun c hc => g.rest_stops c (head?_of_splitAll hrest c hc)
  refine ⟨before.map writtenNumber, more.map writtenNumber, fun ds hds => ?_⟩
  have hmem : '.' ∉ g.blanks ++ ds := by
    intro hmem
    rcases List.mem_append.mp hmem with hmem | hmem
    · exact not_mem_blanks g.isBlank_blanks hmem
    · exact absurd (hds.2 _ hmem) (by decide)
  obtain ⟨before', last, hfront', hsplit⟩ :=
    splitAll_append_of_cons g.front (splitAll_append_of_not_mem hmem hrest)
  obtain ⟨rfl, hlast⟩ := List.append_inj' (hfront.symm.trans hfront') rfl
  obtain rfl : [] = last := (List.cons.inj hlast).1
  rw [writtenNumbers, fill, String.toList_ofList, hsplit, List.nil_append, List.map_append,
    List.map_cons, g.writtenNumber_gap hds hpiece]

end Gap

theorem compareSegments_append (before : List Nat) (m n : Nat) (behind : List Nat) :
    compareSegments (before ++ m :: behind) (before ++ n :: behind) = compare m n := by
  induction before with
  | nil =>
    have hself : compareSegments behind behind = .eq := Std.ReflCmp.compare_self
    rw [List.nil_append, List.nil_append, compareSegments, hself, Ordering.then_eq]
  | cons k before ih =>
    have hself : compare k k = .eq := Std.ReflCmp.compare_self
    rw [List.cons_append, List.cons_append, compareSegments, ih, hself, Ordering.eq_then]

/-- of two fillings the one exceeds of whose number more is kept -/
theorem exceeds_fill_iff (g : Gap) {ds es : List Char} (hds : IsDigits ds) (hes : IsDigits es)
    {v w : Version} (hv : parse? (g.fill ds) = some v) (hw : parse? (g.fill es) = some w) :
    v.exceeds w = true ↔ kept (digitsNumber es) < kept (digitsNumber ds) := by
  obtain ⟨before, behind, hnumbers⟩ := g.exists_writtenNumbers_fill
  rw [exceeds, beq_iff_eq, segments_eq_kept hv, segments_eq_kept hw, hnumbers ds hds,
    hnumbers es hes, List.map_append, List.map_append, List.map_cons, List.map_cons,
    compareSegments_append, Nat.compare_eq_gt]

/-! ### comparing -/

/-- both ways, the numbers that are written decide -/
def Agrees (s t : String) (v w : Version) : Prop :=
  (v.exceeds w = true ↔ IsGreater (writtenNumbers s) (writtenNumbers t)) ∧
    (w.exceeds v = true ↔ IsGreater (writtenNumbers t) (writtenNumbers s))

theorem agrees_of_fits {s t : String} {v w : Version} (hv : parse? s = some v)
    (hw : parse? t = some w) (hs : Fits s) (ht : Fits t) : Agrees s t v w := by
  rw [Agrees, exceeds_iff_isGreater, exceeds_iff_isGreater, segments_eq_kept hv,
    segments_eq_kept hw, map_kept_of_fits hs, map_kept_of_fits ht]
  exact ⟨.rfl, .rfl⟩

/-- there is a text whose numbers are what is kept of those of another -/
theorem fits_of_agrees {s : String} {v : Version} (hv : parse? s = some v)
    (h : ∀ t w, parse? t = some w → Fits t → Agrees s t v w) : Fits s := by
  have hne : (writtenNumbers s).map kept ≠ [] := by
    rw [writtenNumbers, List.map_map]
    exact fun hnil => splitAll_ne_nil '.' s.toList (List.map_eq_nil_iff.mp hnil)
  obtain ⟨t, w, hw, ht⟩ := exists_writtenNumbers_eq hne
  have hfits : Fits t := by
    intro n hn
    rw [ht] at hn
    obtain ⟨m, -, rfl⟩ := List.mem_map.mp hn
    exact kept_lt m
  have hsame : v.exceeds w = false := by
    have hsegments : v.segments = w.segments := by
      rw [segments_eq_kept hv, segments_eq_kept hw, map_kept_of_fits hfits, ht]
    have hself : compareSegments w.segments w.segments = .eq := Std.ReflCmp.compare_self
    rw [exceeds, hsegments, hself]
    rfl
  by_contra hlarge
  have hgreater : IsGreater (writtenNumbers s) (writtenNumbers t) := by
    rw [ht]
    refine isGreater_map_kept ?_
    simpa only [Fits, not_forall, Nat.not_lt, exists_prop] using hlarge
  rw [(h t w hw hfits).1.mpr hgreater] at hsame
  cases hsame

/-- **Versions compare by the numbers that are written, as long as these fit a word**: they compare
by what is kept of them, a text fits just where it compares rightly with all that fit, and a larger
number in place of another one makes a version lower only where it does not fit. -/
theorem exceeds_written {s t : String} (hs : ∃ c ∈ s.toList, isBlank c = false)
    (ht : ∃ c ∈ t.toList, isBlank c = false) :
    ∃ v w, parse? s = some v ∧ parse? t = some w ∧
      (v.exceeds w = true ↔
        IsGreater ((writtenNumbers s).map kept) ((writtenNumbers t).map kept)) ∧
      (Fits s → Fits t →
        (v.exceeds w = true ↔ IsGreater (writtenNumbers s) (writtenNumbers t))) ∧
      (Fits s ↔ ∀ u x, parse? u = some x → Fits u → Agrees s u v x) ∧
      ∀ (g : Gap) (ds es : List Char), IsDigits ds → IsDigits es → s = g.fill ds → t = g.fill es →
        digitsNumber ds < digitsNumber es →
          (digitsNumber es < segmentLimit → w.exceeds v = true) ∧
          (v.exceeds w = true ↔ 0 < digitsNumber ds ∧ digitsNumber ds < segmentLimit ∧
            segmentLimit ≤ digitsNumber es) := by
  obtain ⟨v, hv⟩ := exists_parse?_of_not_blank hs
  obtain ⟨w, hw⟩ := exists_parse?_of_not_blank ht
  refine ⟨v, w, hv, hw, ?_, fun hs ht => (agrees_of_fits hv hw hs ht).1,
    ⟨fun hs u x hx hu => agrees_of_fits hv hx hs hu, fits_of_agrees hv⟩, ?_⟩
  · rw [exceeds_iff_isGreater, segments_eq_kept hv, segments_eq_kept hw]
  · rintro g ds es hds hes rfl rfl hlt
    refine ⟨fun hfits => ?_, ?_⟩
    · rw [exceeds_fill_iff g hes hds hw hv, kept_eq_self hfits, kept_eq_self (hlt.trans hfits)]
      exact hlt
    · rw [exceeds_fill_iff g hds hes hv hw, kept_lt_kept_iff hlt]

/-- a segment with a blank in front of its digits and a suffix behind them -/
def suffixGap : Gap where
  front := "5.".toList
  blanks := [' ']
  rest := "rc.x".toList
  front_ends := .inr ⟨['5'], rfl⟩
  isBlank_blanks := List.all_eq_true.mp rfl
  rest_stops := fun _ hc => Option.some.inj hc ▸ rfl

theorem exceeds_written_suffix :
    (∃ c ∈ (suffixGap.fill ['9']).toList, isBlank c = false) ∧
      (∃ c ∈ (suffixGap.fill ['1', '0']).toList, isBlank c = false) ∧
      Fits (suffixGap.fill ['9']) ∧ Fits (suffixGap.fill ['1', '0']) ∧
      ∃ v w, parse? (suffixGap.fill ['9']) = some v ∧
        parse? (suffixGap.fill ['1', '0']) = some w ∧ w.exceeds v = true ∧
        ¬ IsGreater (writtenNumbers (suffixGap.fill ['9']))
          (writtenNumbers (suffixGap.fill ['1', '0'])) := by
  have hs : ∃ c ∈ (suffixGap.fill ['9']).toList, isBlank c = false := ⟨'5', by decide, by decide⟩
  have ht : ∃ c ∈ (suffixGap.fill ['1', '0']).toList, isBlank c = false :=
    ⟨'5', by decide, by decide⟩
  have hfits : Fits (suffixGap.fill ['9']) ∧ Fits (suffixGap.fill ['1', '0']) := by
    rw [Fits, Fits]
    decide +kernel
  have hdigits : IsDigits ['9'] ∧ IsDigits ['1', '0'] :=
    ⟨⟨by decide, List.all_eq_true.mp rfl⟩, ⟨by decide, List.all_eq_true.mp rfl⟩⟩
  obtain ⟨v, w, hv, hw, -, hgreater, -, hfill⟩ := exceeds_written hs ht
  obtain ⟨hhigher, hlower⟩ :=
    hfill suffixGap ['9'] ['1', '0'] hdigits.1 hdigits.2 rfl rfl (by decide)
  refine ⟨hs, ht, hfits.1, hfits.2, v, w, hv, hw, hhigher (by decide), ?_⟩
  rw [← hgreater hfits.1 hfits.2, hlower]
  decide

/-- the least number that does not fit a word counts as zero -/
theorem not_exceeds_large :
    ∃ v w, parse? "18446744073709551616" = some v ∧ parse? "1" = some w ∧
      IsGreater (writtenNumbers "18446744073709551616") (writtenNumbers "1") ∧
      v.exceeds w = false ∧ w.exceeds v = true := by
  let v : Version := ⟨"18446744073709551616", by decide +kernel⟩
  let w : Version := ⟨"1", by decide +kernel⟩
  have hgreater : (writtenNumbers "1")[0]?.getD 0 <
      (writtenNumbers "18446744073709551616")[0]?.getD 0 := by decide +kernel
  have hsegments : v.segments = [0] ∧ w.segments = [1] := by decide +kernel
  refine ⟨v, w, parse?_text v, parse?_text w, ⟨0, nofun, hgreater⟩, ?_, ?_⟩
  · rw [exceeds, hsegments.1, hsegments.2]
    simp [compareSegments, Nat.compare_eq_gt]
  · rw [exceeds, hsegments.1, hsegments.2]
    simp [compareSegments, Nat.compare_eq_gt]

end VersionFloor.Version
