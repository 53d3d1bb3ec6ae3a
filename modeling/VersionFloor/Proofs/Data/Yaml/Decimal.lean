import VersionFloor.Data.Yaml.Value
import VersionFloor.Proofs.Version.Numeral

/-!
# YAML: decimal numbers

A numeral at the end of a line is a plain scalar (`takePlain_text`), and a plain scalar without a
tag that is written so is the number nearest to it, whatever else it might be taken for
(`scalarValue?_text`).
-/

namespace VersionFloor.Data.Yaml

open Decimal Text

/-! ### words -/

namespace Cursor

theorem skip_skip (c : Cursor) (m n : Nat) : (c.skip m).skip n = c.skip (n + m) := by
  simp only [skip, List.drop_drop, Nat.add_assoc, Nat.add_comm n m]

theorem peek_eq {c : Cursor} {rest : List Char} (h : c.rest = rest) : c.peek = rest.head? := by
  rw [peek, h]

theorem rest_skip {c : Cursor} {s rest : List Char} (h : c.rest = s ++ rest) :
    (c.skip s.length).rest = rest := by
  show c.rest.drop s.length = rest
  rw [h, List.drop_left]

end Cursor

/-- whether a word goes on with `ch`, whatever follows -/
def IsPlain (ch : Char) : Prop :=
  isGap (some ch) = false ∧ (ch == ':') = false ∧ endsFlow ch = false

/-- a word goes on to the next gap -/
theorem takeWord_append (inFlow : Bool) {word rest : List Char} (hword : ∀ ch ∈ word, IsPlain ch)
    (hrest : isGap rest.head? = true) {c : Cursor} (hc : c.rest = word ++ rest) {fuel : Nat}
    (hfuel : word.length < fuel) :
    takeWord inFlow fuel c = some (word, c.skip word.length) := by
  induction word generalizing c fuel with
  | nil =>
    obtain ⟨fuel, rfl⟩ := Nat.exists_eq_add_one_of_ne_zero (Nat.ne_zero_of_lt hfuel)
    have hpeek : isGap c.peek = true := by
      rw [Cursor.peek_eq hc]
      exact hrest
    unfold takeWord
    cases hp : c.peek with
    | none => rfl
    | some ch =>
      rw [hp] at hpeek
      simp only [hpeek, if_true]
      rfl
  | cons ch word ih =>
    obtain ⟨fuel, rfl⟩ := Nat.exists_eq_add_one_of_ne_zero (Nat.ne_zero_of_lt hfuel)
    obtain ⟨hgap, hcolon, hflow⟩ := hword ch List.mem_cons_self
    have hpeek : c.peek = some ch := Cursor.peek_eq hc
    have hnext : (c.skip 1).rest = word ++ rest := Cursor.rest_skip (s := [ch]) hc
    rw [List.length_cons] at hfuel ⊢
    have hmore := ih (fun d hd => hword d (List.mem_cons_of_mem _ hd)) hnext
      (Nat.lt_of_succ_lt_succ hfuel)
    unfold takeWord
    simp only [hpeek, hgap, hcolon, hflow, hmore, Cursor.skip_skip]
    simp

/-- the pads in front of the next word, behind a break -/
theorem takeGap_pads (indent : Nat) {g : Gap} (hg : g.isBroken = true) {pads : Nat}
    {rest : List Char} (hrest : ∀ ch ∈ rest.head?, isGap (some ch) = false) {c : Cursor}
    (hc : c.rest = List.replicate pads ' ' ++ rest) {fuel : Nat} (hfuel : pads < fuel) :
    takeGap indent fuel g c = some (g, c.skip pads) := by
  induction pads generalizing c fuel with
  | zero =>
    obtain ⟨fuel, rfl⟩ := Nat.exists_eq_add_one_of_ne_zero (Nat.ne_zero_of_lt hfuel)
    have hpeek : c.peek = rest.head? := Cursor.peek_eq hc
    unfold takeGap
    cases hp : c.peek with
    | none => rfl
    | some ch =>
      rw [hp] at hpeek
      have hgap := hrest ch hpeek.symm
      rw [isGap, Bool.or_eq_false_iff] at hgap
      simp only [hgap.1, hgap.2]
      rfl
  | succ pads ih =>
    obtain ⟨fuel, rfl⟩ := Nat.exists_eq_add_one_of_ne_zero (Nat.ne_zero_of_lt hfuel)
    rw [List.replicate_succ, List.cons_append] at hc
    have hpeek : c.peek = some ' ' := Cursor.peek_eq hc
    have hnext : (c.skip 1).rest = List.replicate pads ' ' ++ rest :=
      Cursor.rest_skip (s := [' ']) hc
    have hmore := ih hnext (Nat.lt_of_succ_lt_succ hfuel)
    unfold takeGap
    simp only [hpeek, hg]
    show takeGap indent fuel g (c.skip 1) = _
    rw [hmore, Cursor.skip_skip]

theorem skipBreak_eq {c : Cursor} {rest : List Char} (h : c.rest = '\n' :: rest) :
    c.skipBreak = ⟨rest, c.index + 1, c.line + 1, 0⟩ := by
  unfold Cursor.skipBreak
  rw [h]
  rfl

/-- a line break and the pads of the next line -/
theorem takeGap_line (indent : Nat) {pads : Nat} {rest : List Char}
    (hrest : ∀ ch ∈ rest.head?, isGap (some ch) = false) {c : Cursor}
    (hc : c.rest = '\n' :: (List.replicate pads ' ' ++ rest)) :
    takeGap indent (c.rest.length + 1) .empty c =
      some (⟨[], [['\n']]⟩, c.skipBreak.skip pads) := by
  have hpeek : c.peek = some '\n' := Cursor.peek_eq hc
  have htext : c.breakText = ['\n'] := by
    unfold Cursor.breakText
    rw [hpeek]
    rfl
  have hfuel : pads < c.rest.length := by
    rw [hc, List.length_cons, List.length_append, List.length_replicate]
    omega
  have hnext : c.skipBreak.rest = List.replicate pads ' ' ++ rest := by rw [skipBreak_eq hc]
  unfold takeGap
  rw [hpeek]
  show takeGap indent c.rest.length ⟨[], [c.breakText]⟩ c.skipBreak = _
  rw [htext, takeGap_pads indent rfl hrest hnext hfuel]

/-! ### digits -/

/-- one character that is no digit spoils the number -/
theorem digitsOf?_of_mem {radix : Nat} {c : Char} {ds : List Char} (hc : c ∈ ds)
    (hdigit : digitOf? radix c = none) : digitsOf? radix ds = none := by
  have hfold (acc : Nat) :
      ds.foldlM (fun n c => (digitOf? radix c).map (n * radix + ·)) acc = none := by
    induction ds generalizing acc with
    | nil => cases hc
    | cons d ds ih =>
      rw [List.foldlM_cons]
      rcases List.mem_cons.mp hc with rfl | hc
      · rw [hdigit]
        rfl
      · cases digitOf? radix d with
        | none => rfl
        | some m => exact ih hc _
  rw [digitsOf?, hfold]
  split <;> rfl

/-! ### numerals -/

variable (n : Numeral)

theorem exists_text_eq : ∃ c cs, n.text = c :: cs ∧ isAsciiDigit c = true := by
  obtain ⟨c, cs, hwhole⟩ := List.exists_cons_of_ne_nil n.whole_ne_nil
  refine ⟨c, cs ++ '.' :: n.fraction, ?_, n.isAsciiDigit_whole c (hwhole ▸ List.mem_cons_self)⟩
  rw [Numeral.text, hwhole, List.cons_append]

theorem point_mem_text : '.' ∈ n.text :=
  List.mem_append_right _ List.mem_cons_self

/-- a numeral starts with a digit -/
theorem head?_text_ne {c : Char} (hc : isAsciiDigit c = false) : n.text.head? ≠ some c := by
  obtain ⟨d, ds, htext, hd⟩ := exists_text_eq n
  rw [htext]
  exact fun hhead => ne_of_isAsciiDigit hd hc (Option.some.inj hhead)

theorem isPlain_text : ∀ ch ∈ n.text, IsPlain ch := by
  intro ch hch
  rcases n.of_mem_text hch with hdigit | rfl
  · have hne {d : Char} (hd : isAsciiDigit d = false) : ch ≠ d := ne_of_isAsciiDigit hdigit hd
    simp (disch := decide) [IsPlain, isGap, isPad, isBreak, endsFlow, hne]
  · exact ⟨by decide, by decide, by decide⟩

theorem ofList_text_ne {s : String} (hs : s.toList.head?.any isAsciiDigit = false) :
    String.ofList n.text ≠ s := by
  rintro rfl
  obtain ⟨d, ds, htext, hd⟩ := exists_text_eq n
  rw [String.toList_ofList, htext] at hs
  exact absurd hd (by rw [show isAsciiDigit d = false from hs]; decide)

/-- what is not indented more than the blocks around it does not go on with the number -/
theorem takePlain_text {indent pads : Nat} (hpads : pads < indent) {rest : List Char}
    (hrest : ∀ ch ∈ rest.head?, isGap (some ch) = false) {c : Cursor}
    (hc : c.rest = n.text ++ '\n' :: (List.replicate pads ' ' ++ rest)) :
    takePlain false indent c =
      some (n.text, true, ((c.skip n.text.length).skipBreak).skip pads) := by
  obtain ⟨d, ds, htext, hd⟩ := exists_text_eq n
  have hpeek : c.peek = some d := by
    rw [Cursor.peek_eq hc, htext]
    rfl
  -- a digit stands where a mark of a document or a comment could
  have hmark : c.hasDocumentMark = false := by
    have hdash : d ≠ '-' := ne_of_isAsciiDigit hd (by decide)
    have hpoint : d ≠ '.' := ne_of_isAsciiDigit hd (by decide)
    simp [Cursor.hasDocumentMark, Cursor.hasMark, Cursor.startMark, Cursor.endMark, hc, htext,
      List.isPrefixOf, hdash.symm, hpoint.symm]
  have hcomment : (c.peek == some '#') = false := by
    rw [hpeek]
    simpa using ne_of_isAsciiDigit hd (by decide)
  have hfuel : n.text.length < c.rest.length + 1 := by
    rw [hc, List.length_append]
    omega
  have hline : isGap ('\n' :: (List.replicate pads ' ' ++ rest)).head? = true := rfl
  have hword := takeWord_append false (isPlain_text n) hline hc hfuel
  have hbreak : (c.skip n.text.length).rest = '\n' :: (List.replicate pads ' ' ++ rest) :=
    Cursor.rest_skip hc
  have hgap := takeGap_line indent hrest hbreak
  have hpeeks : ((c.skip n.text.length).peeks fun ch => isPad ch || isBreak ch) = true := by
    show (c.skip n.text.length).rest.head?.any _ = true
    rw [hbreak]
    rfl
  -- the next word stands too far left to belong to the scalar
  have hcolumn : ((c.skip n.text.length).skipBreak.skip pads).column < indent := by
    rw [skipBreak_eq hbreak]
    show 0 + pads < indent
    omega
  have hempty : n.text.isEmpty = false := by
    rw [htext]
    rfl
  unfold takePlain takePlainFrom
  rw [hmark, hcomment]
  simp only [Bool.or_self, Bool.false_eq_true, if_false, hword, hempty, hpeeks, hgap, hcolumn,
    Option.bind_eq_bind, Option.bind_some]
  simp [Gap.empty, Gap.text, Gap.isBroken]

theorem withoutSign_text : withoutSign n.text = n.text := by
  have hplus := head?_text_ne n (c := '+') (by decide)
  have hminus := head?_text_ne n (c := '-') (by decide)
  obtain ⟨c, cs, htext, -⟩ := exists_text_eq n
  rw [htext] at hplus hminus ⊢
  have hsign : ¬ isSign c = true := by
    simpa [isSign] using And.intro hplus hminus
  rw [withoutSign, if_neg hsign]

theorem isDigitText_text : isDigitText n.text = false := by
  have hall : n.text.all isAsciiDigit = false :=
    List.all_eq_false.mpr ⟨'.', point_mem_text n, by decide⟩
  unfold isDigitText
  simp only [withoutSign_text, hall, Bool.and_false]

/-- no letter names a radix -/
theorem takeRadix_text : takeRadix n.text = (10, n.text) := by
  have hletter {c d : Char} {rest : List Char} (htext : n.text = d :: c :: rest)
      (hdigit : isAsciiDigit c = false) : c = '.' := by
    have hmem : c ∈ n.text := by simp [htext]
    rcases n.of_mem_text hmem with hc | hc
    · rw [hdigit] at hc
      cases hc
    · exact hc
  unfold takeRadix
  split
  · rename_i htext
    exact absurd (hletter htext (by decide)) (by decide)
  · rename_i htext
    exact absurd (hletter htext (by decide)) (by decide)
  · rename_i htext
    exact absurd (hletter htext (by decide)) (by decide)
  · rfl

theorem wholeOf?_text : wholeOf? n.text = none := by
  have hmagnitude : magnitude? n.text = none := by
    have hdigits : digitsOf? 10 n.text = none := digitsOf?_of_mem (point_mem_text n) (by decide)
    unfold magnitude?
    simp only [takeRadix_text, hdigits, ite_self]
  unfold wholeOf?
  split
  · rename_i htext
    exact absurd (by rw [htext]; rfl) (head?_text_ne n (c := '-') (by decide))
  · rw [if_neg (head?_text_ne n (by decide)), hmagnitude]
    rfl

theorem decimalOf?_text : decimalOf? n.text = Binary.ofDecimal? n.digits (-n.places : Int) := by
  have hpoint : ∀ c ∈ ('.' :: n.fraction).head?, isAsciiDigit c = false := by
    rintro c ⟨⟩
    decide
  have hend : ∀ c ∈ ([] : List Char).head?, isAsciiDigit c = false := by
    intro c hc
    cases hc
  have htake : n.fraction.takeWhile isAsciiDigit = n.fraction := by
    rw [List.takeWhile_eq_self_iff]
    exact n.isAsciiDigit_fraction
  have hdrop : n.fraction.dropWhile isAsciiDigit = [] := by
    rw [List.dropWhile_eq_nil_iff]
    exact n.isAsciiDigit_fraction
  have hdigits : digitsOf? 10 (n.whole ++ n.fraction) = some n.digits := by
    apply digitsOf?_eq (List.append_ne_nil_of_left_ne_nil n.whole_ne_nil _)
    intro c hc
    exact (List.mem_append.mp hc).elim (n.isAsciiDigit_whole c) (n.isAsciiDigit_fraction c)
  unfold decimalOf? Numeral.text
  rw [takeWhile_run n.isAsciiDigit_whole hpoint, dropWhile_run n.isAsciiDigit_whole hpoint]
  simp only [htake, hdrop]
  show (digitsOf? 10 (n.whole ++ n.fraction)).bind _ = _
  rw [hdigits]
  show Binary.ofDecimal? n.digits (0 - n.fraction.length) = _
  rw [zero_sub]
  rfl

theorem doubleOf?_text :
    doubleOf? n.text = (Binary.ofDecimal? n.digits (-n.places : Int)).map (.finite false) := by
  have hplus := head?_text_ne n (c := '+') (by decide)
  have hminus := head?_text_ne n (c := '-') (by decide)
  have hinfinity : isInfinity (String.ofList n.text) = false := by
    simp (disch := decide) [isInfinity, ofList_text_ne n]
  have hnone : isNoNumber (String.ofList n.text) = false := by
    simp (disch := decide) [isNoNumber, ofList_text_ne n]
  unfold doubleOf?
  rw [if_neg hplus, hinfinity, hnone, withoutSign_text, decimalOf?_text]
  simp [hminus]

/-- **A plain numeral is the number nearest to it.** -/
theorem scalarValue?_text {b : Binary}
    (hb : Binary.ofDecimal? n.digits (-n.places : Int) = some b) :
    scalarValue? none .plain (String.ofList n.text) =
      some (.number (.double (.finite false b))) := by
  have hnull : ¬ (String.ofList n.text = "" ∨ isNull (String.ofList n.text) = true) := by
    simp (disch := decide) [isNull, ofList_text_ne n]
  have hbool : boolOf? (String.ofList n.text) = none := by
    simp (disch := decide) [boolOf?, ofList_text_ne n]
  show plainValue? (String.ofList n.text) = _
  unfold plainValue?
  rw [if_neg hnull, hbool]
  simp only [String.toList_ofList, wholeOf?_text, isDigitText_text, doubleOf?_text, hb]
  rfl

/-! ### documents -/

omit n in
/-- a scalar is what its text says, wherever it stands -/
theorem valueIn_scalar (d : Document) (depth : Nat) (anchor : Option Nat) (tag : Option String)
    (style : Style) (s : String) (count : Nat) :
    (valueIn d depth (.scalar anchor tag style s)).run count =
      (scalarValue? tag style s).map fun v => (v, count) := by
  have hscalar : valueIn d depth (.scalar anchor tag style s) =
      (liftM (scalarValue? tag style s) : StateT Nat Option Value) := by
    cases depth with
    | zero => rfl
    | succ depth => rfl
  rw [hscalar]
  cases scalarValue? tag style s <;> rfl

end VersionFloor.Data.Yaml
