import VersionFloor.Proofs.Data.Json.Value

/-!
# JSON: texts that a writer lays out

A layout says what stands in front of each item and behind each colon; whatever that is, the text
writes its value out (`writes_layOut`), and so it does when it has one item on a line
(`writes_pretty`) or no blanks at all (`writes_compact`).
-/

namespace VersionFloor.Data.Json

structure Layout where
  /-- in front of an item, or of a closing bracket, at this indentation -/
  line : Nat → List Char
  behindColon : List Char
  blank_line : ∀ indent, ∀ c ∈ line indent, isSpace c = true
  blank_behindColon : ∀ c ∈ behindColon, isSpace c = true

mutual

def layOut (l : Layout) (indent : Nat) : Value → List Char
  | .null => ['n', 'u', 'l', 'l']
  | .bool b => if b then ['t', 'r', 'u', 'e'] else ['f', 'a', 'l', 's', 'e']
  | .number n => n.text.toList
  | .text s => writeText s
  | .list [] => ['[', ']']
  | .list (v :: vs) => '[' :: (l.line (indent + 2) ++ (layOut l (indent + 2) v ++
      (layOutItems l (indent + 2) vs ++ (l.line indent ++ [']']))))
  | .record [] => ['\x7b', '\x7d']
  | .record ((k, v) :: fs) => '\x7b' :: (l.line (indent + 2) ++ (writeKey k ++
      ':' :: (l.behindColon ++ (layOut l (indent + 2) v ++
        (layOutFields l (indent + 2) fs ++ (l.line indent ++ ['\x7d']))))))

/-- the items after the first -/
def layOutItems (l : Layout) (indent : Nat) : List Value → List Char
  | [] => []
  | v :: vs => ',' :: (l.line indent ++ (layOut l indent v ++ layOutItems l indent vs))

/-- the fields after the first -/
def layOutFields (l : Layout) (indent : Nat) : List (Value × Value) → List Char
  | [] => []
  | (k, v) :: fs => ',' :: (l.line indent ++ (writeKey k ++ ':' :: (l.behindColon ++
      (layOut l indent v ++ layOutFields l indent fs))))

end

/-! ### what is laid out is written out -/

theorem not_goesOn_nil : ¬ GoesOn [] := by
  rintro ⟨c, hc, -⟩
  cases hc

/-- a character that may stand behind a number -/
def stops (c : Char) : Bool := isSpace c || c == ',' || c == ']' || c == '\x7d'

theorem not_goesOn_cons {c : Char} (hc : stops c = true) (s : List Char) : ¬ GoesOn (c :: s) := by
  rintro ⟨d, hd, hgoes⟩
  obtain rfl : c = d := Option.some.inj hd
  rcases hgoes with hdigit | rfl | rfl | rfl
  · rw [stops, isSpace_of_isAsciiDigit hdigit, beq_of_isAsciiDigit hdigit (by decide),
      beq_of_isAsciiDigit hdigit (by decide), beq_of_isAsciiDigit hdigit (by decide)] at hc
    cases hc
  · exact absurd hc (by decide)
  · exact absurd hc (by decide)
  · exact absurd hc (by decide)

theorem not_goesOn_blanks {blanks : List Char} (hblanks : ∀ c ∈ blanks, isSpace c = true)
    {s : List Char} (hs : ¬ GoesOn s) : ¬ GoesOn (blanks ++ s) := by
  cases blanks with
  | nil => exact hs
  | cons c blanks =>
    have hc : stops c = true := by
      rw [stops, hblanks c List.mem_cons_self]
      rfl
    exact not_goesOn_cons hc _

theorem written_writeText (content : String) {ts : List Token} {s : List Char}
    (h : Written ts s) : Written (.text content.toList :: ts) (writeText content ++ s) := by
  have hspells := Written.text (spells_escape content.toList) h
  simpa only [writeText, List.cons_append, List.append_assoc, List.nil_append] using hspells

theorem written_writeKey {k : Value} (hk : isKey k = true) {ts : List Token} {s : List Char}
    (h : Written ts s) : Written (keyToken k :: ts) (writeKey k ++ s) := by
  cases k with
  | text content => exact written_writeText content h
  | _ => cases hk

theorem written_number {n : Number} (hn : isWord n = true) {ts : List Token} {s : List Char}
    (hs : ¬ GoesOn s) (h : Written ts s) : Written (.number n :: ts) (n.text.toList ++ s) := by
  cases n with
  | natural n =>
    have htext : (Number.natural n).text.toList = Nat.toDigits 10 n := String.toList_ofList
    rw [htext]
    exact .number (of_decide_eq_true hn) hs h
  | _ => cases hn

section

variable (l : Layout)

theorem not_goesOn_layOutItems (indent : Nat) (vs : List Value) {s : List Char}
    (hs : ¬ GoesOn s) : ¬ GoesOn (layOutItems l indent vs ++ s) := by
  cases vs with
  | nil => exact hs
  | cons v vs => exact not_goesOn_cons (by decide) _

theorem not_goesOn_layOutFields (indent : Nat) (fs : List (Value × Value)) {s : List Char}
    (hs : ¬ GoesOn s) : ¬ GoesOn (layOutFields l indent fs ++ s) := by
  cases fs with
  | nil => exact hs
  | cons f fs => exact not_goesOn_cons (by decide) _

mutual

theorem written_layOut (v : Value) {room : Nat} (hfits : fits room v = true) (indent : Nat)
    {ts : List Token} {s : List Char} (hs : ¬ GoesOn s) (h : Written ts s) :
    Written (valueTokens v ++ ts) (layOut l indent v ++ s) := by
  cases v with
  | null => exact .mark rfl h
  | bool b => cases b <;> exact .mark rfl h
  | number n => exact written_number hfits hs h
  | text content => exact written_writeText content h
  | list items =>
    cases items with
    | nil => exact .mark (t := .openList) (m := ['[']) rfl (.mark (m := [']']) rfl h)
    | cons v vs =>
      rw [fits, fitItems, Bool.and_eq_true, Bool.and_eq_true] at hfits
      obtain ⟨-, hv, hvs⟩ := hfits
      have hclose : Written (.closeList :: ts) (l.line indent ++ (']' :: s)) :=
        Written.blanks (.mark (m := [']']) rfl h) (l.blank_line indent)
      have hend : ¬ GoesOn (l.line indent ++ (']' :: s)) :=
        not_goesOn_blanks (l.blank_line indent) (not_goesOn_cons (by decide) s)
      have hitems := written_layOutItems vs hvs (indent + 2) hend hclose
      have hfirst := written_layOut v hv (indent + 2)
        (not_goesOn_layOutItems l (indent + 2) vs hend) hitems
      have hopen := Written.mark (t := .openList) (m := ['[']) rfl
        (hfirst.blanks (l.blank_line (indent + 2)))
      simpa only [valueTokens, layOut, List.cons_append, List.append_assoc, List.nil_append]
        using hopen
  | record fields =>
    cases fields with
    | nil =>
      exact .mark (t := .openRecord) (m := ['\x7b']) rfl (.mark (m := ['\x7d']) rfl h)
    | cons field fs =>
      obtain ⟨k, v⟩ := field
      rw [fits, fitFields, Bool.and_eq_true, Bool.and_eq_true, Bool.and_eq_true] at hfits
      obtain ⟨-, ⟨hk, hv⟩, hfs⟩ := hfits
      have hclose : Written (.closeRecord :: ts) (l.line indent ++ ('\x7d' :: s)) :=
        Written.blanks (.mark (m := ['\x7d']) rfl h) (l.blank_line indent)
      have hend : ¬ GoesOn (l.line indent ++ ('\x7d' :: s)) :=
        not_goesOn_blanks (l.blank_line indent) (not_goesOn_cons (by decide) s)
      have hfields := written_layOutFields fs hfs (indent + 2) hend hclose
      have hfirst := written_layOut v hv (indent + 2)
        (not_goesOn_layOutFields l (indent + 2) fs hend) hfields
      have hcolon := Written.mark (t := .colon) (m := [':']) rfl
        (hfirst.blanks l.blank_behindColon)
      have hopen := Written.mark (t := .openRecord) (m := ['\x7b']) rfl
        ((written_writeKey hk hcolon).blanks (l.blank_line (indent + 2)))
      simpa only [valueTokens, layOut, List.cons_append, List.append_assoc, List.nil_append]
        using hopen
termination_by structural v

theorem written_layOutItems (vs : List Value) {room : Nat} (hfits : fitItems room vs = true)
    (indent : Nat) {ts : List Token} {s : List Char} (hs : ¬ GoesOn s) (h : Written ts s) :
    Written (itemTokens vs ++ ts) (layOutItems l indent vs ++ s) := by
  cases vs with
  | nil => exact h
  | cons v vs =>
    rw [fitItems, Bool.and_eq_true] at hfits
    have hrest := written_layOutItems vs hfits.2 indent hs h
    have hfirst := written_layOut v hfits.1 indent (not_goesOn_layOutItems l indent vs hs) hrest
    have hcomma := Written.mark (t := .comma) (m := [',']) rfl
      (hfirst.blanks (l.blank_line indent))
    simpa only [itemTokens, layOutItems, List.cons_append, List.append_assoc, List.nil_append]
      using hcomma
termination_by structural vs

theorem written_layOutFields (fs : List (Value × Value)) {room : Nat}
    (hfits : fitFields room fs = true) (indent : Nat) {ts : List Token} {s : List Char}
    (hs : ¬ GoesOn s) (h : Written ts s) :
    Written (fieldTokens fs ++ ts) (layOutFields l indent fs ++ s) := by
  cases fs with
  | nil => exact h
  | cons field fs =>
    obtain ⟨k, v⟩ := field
    rw [fitFields, Bool.and_eq_true, Bool.and_eq_true] at hfits
    obtain ⟨⟨hk, hv⟩, hfs⟩ := hfits
    have hrest := written_layOutFields fs hfs indent hs h
    have hfirst := written_layOut v hv indent (not_goesOn_layOutFields l indent fs hs) hrest
    have hcolon := Written.mark (t := .colon) (m := [':']) rfl
      (hfirst.blanks l.blank_behindColon)
    have hcomma := Written.mark (t := .comma) (m := [',']) rfl
      ((written_writeKey hk hcolon).blanks (l.blank_line indent))
    simpa only [fieldTokens, layOutFields, List.cons_append, List.append_assoc, List.nil_append]
      using hcomma
termination_by structural fs

end

/-- blanks may follow -/
theorem writes_layOut_append {v : Value} (hfits : fits depthLimit v = true) {blanks : List Char}
    (hblanks : ∀ c ∈ blanks, isSpace c = true) :
    Writes v (String.ofList (layOut l 0 v ++ blanks)) := by
  have hend : Written [] blanks := List.append_nil blanks ▸ Written.done.blanks hblanks
  have hstop : ¬ GoesOn blanks :=
    List.append_nil blanks ▸ not_goesOn_blanks hblanks not_goesOn_nil
  refine ⟨hfits, ?_⟩
  rw [String.toList_ofList]
  simpa only [List.append_nil] using written_layOut l v hfits 0 hstop hend

theorem writes_layOut {v : Value} (hfits : fits depthLimit v = true) :
    Writes v (String.ofList (layOut l 0 v)) := by
  have hnone : ∀ c ∈ ([] : List Char), isSpace c = true := fun c hc => (by cases hc)
  simpa only [List.append_nil] using writes_layOut_append l hfits hnone

end

/-! ### with lines and without -/

/-- one item on a line and two blanks for each level -/
def lines : Layout where
  line := newLine
  behindColon := [' ']
  blank_line indent c hc := by
    rcases List.mem_cons.mp hc with rfl | hc
    · rfl
    · rw [List.eq_of_mem_replicate hc]
      rfl
  blank_behindColon c hc := by
    rw [List.mem_singleton.mp hc]
    rfl

/-- no blanks at all -/
def dense : Layout where
  line _ := []
  behindColon := []
  blank_line _ _ hc := by cases hc
  blank_behindColon _ hc := by cases hc

def compact (v : Value) : String := String.ofList (layOut dense 0 v)

mutual

theorem write_eq (v : Value) (indent : Nat) : write indent v = layOut lines indent v := by
  cases v with
  | bool b => cases b <;> rfl
  | list items =>
    cases items with
    | nil => rfl
    | cons v vs =>
      simp only [write, layOut, write_eq v, writeItems_eq vs, List.cons_append,
        List.append_assoc]
      rfl
  | record fields =>
    cases fields with
    | nil => rfl
    | cons field fs =>
      obtain ⟨k, v⟩ := field
      simp only [write, layOut, write_eq v, writeFields_eq fs, List.cons_append,
        List.append_assoc, List.nil_append]
      rfl
  | _ => rfl
termination_by structural v

theorem writeItems_eq (vs : List Value) (indent : Nat) :
    writeItems indent vs = layOutItems lines indent vs := by
  cases vs with
  | nil => rfl
  | cons v vs =>
    simp only [writeItems, layOutItems, write_eq v, writeItems_eq vs, List.cons_append,
      List.append_assoc]
    rfl
termination_by structural vs

theorem writeFields_eq (fs : List (Value × Value)) (indent : Nat) :
    writeFields indent fs = layOutFields lines indent fs := by
  cases fs with
  | nil => rfl
  | cons field fs =>
    obtain ⟨k, v⟩ := field
    simp only [writeFields, layOutFields, write_eq v, writeFields_eq fs, List.cons_append,
      List.append_assoc, List.nil_append]
    rfl
termination_by structural fs

end

theorem writes_pretty {v : Value} (hfits : fits depthLimit v = true) : Writes v (pretty v) := by
  rw [pretty, write_eq]
  exact writes_layOut lines hfits

/-- a line end may follow -/
theorem writes_pretty_append {v : Value} (hfits : fits depthLimit v = true) :
    Writes v (pretty v ++ "\n") := by
  have htext : pretty v ++ "\n" = String.ofList (layOut lines 0 v ++ ['\n']) := by
    rw [pretty, write_eq, String.ofList_append]
  rw [htext]
  exact writes_layOut_append lines hfits (List.all_eq_true.mp rfl)

theorem writes_compact {v : Value} (hfits : fits depthLimit v = true) : Writes v (compact v) :=
  writes_layOut dense hfits

end VersionFloor.Data.Json
