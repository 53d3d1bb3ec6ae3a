import VersionFloor.Proofs.Text.Lossy

/-!
# Text: outlines

An outline has the ASCII characters of a text, and one mark for each run of others.  What a text
holds beyond ASCII, and how much of it, cannot be seen in its outline, and so bytes that are read
one by one and the same bytes in a lossy reading have one outline (`outline_decodeLossy`).
-/

namespace VersionFloor.Text

/-- stands for characters beyond ASCII -/
def mark : Char := '\uFFFD'

theorem isAscii_mark : isAscii mark = false := rfl

/-- one mark in front of the text -/
def marked (s : List Char) : List Char := if s.head? = some mark then s else mark :: s

def outline : List Char → List Char
  | [] => []
  | c :: s => if isAscii c then c :: outline s else marked (outline s)

section

variable {c : Char} {s t u v : List Char}

theorem outline_ascii (h : isAscii c = true) (s : List Char) :
    outline (c :: s) = c :: outline s := if_pos h

theorem outline_other (h : isAscii c = false) (s : List Char) :
    outline (c :: s) = marked (outline s) := if_neg (by rw [h]; decide)

theorem marked_of_head (h : s.head? = some mark) : marked s = s := if_pos h

theorem marked_of_not_head (h : s.head? ≠ some mark) : marked s = mark :: s := if_neg h

theorem head?_marked (s : List Char) : (marked s).head? = some mark := by
  rw [marked]
  split
  · assumption
  · rfl

theorem marked_marked (s : List Char) : marked (marked s) = marked s :=
  marked_of_head (head?_marked s)

/-- a run of others leaves one mark -/
theorem outline_others (hne : u ≠ []) (hu : ∀ c ∈ u, isAscii c = false) (s : List Char) :
    outline (u ++ s) = marked (outline s) := by
  induction u with
  | nil => exact absurd rfl hne
  | cons c u ih =>
    rw [List.cons_append, outline_other (hu c List.mem_cons_self)]
    cases u with
    | nil => rfl
    | cons d u =>
      rw [ih (List.cons_ne_nil d u) fun e he => hu e (List.mem_cons_of_mem c he), marked_marked]

/-! ### characters of an outline -/

theorem mem_marked (h : c ∈ marked s) : c ∈ s ∨ c = mark := by
  rw [marked] at h
  split at h
  · exact .inl h
  · exact (List.mem_cons.mp h).symm

theorem mem_marked_of_mem (h : c ∈ s) : c ∈ marked s := by
  rw [marked]
  split
  · exact h
  · exact List.mem_cons_of_mem _ h

theorem mem_outline (h : c ∈ outline s) : isAscii c = true ∨ c = mark := by
  induction s with
  | nil => cases h
  | cons d s ih =>
    cases hd : isAscii d with
    | true =>
      rw [outline_ascii hd] at h
      rcases List.mem_cons.mp h with rfl | h
      · exact .inl hd
      · exact ih h
    | false =>
      rw [outline_other hd] at h
      rcases mem_marked h with h | h
      · exact ih h
      · exact .inr h

theorem ne_mark_of_isAscii (hc : isAscii c = true) : c ≠ mark := by
  rintro rfl
  cases isAscii_mark.symm.trans hc

theorem mem_outline_iff (hc : isAscii c = true) : c ∈ outline s ↔ c ∈ s := by
  induction s with
  | nil => exact Iff.rfl
  | cons d s ih =>
    cases hd : isAscii d with
    | true => rw [outline_ascii hd, List.mem_cons, List.mem_cons, ih]
    | false =>
      have hcd : c ≠ d := by
        rintro rfl
        rw [hc] at hd
        cases hd
      rw [outline_other hd, List.mem_cons, or_iff_right hcd, ← ih]
      exact ⟨fun h => (mem_marked h).resolve_right (ne_mark_of_isAscii hc), mem_marked_of_mem⟩

/-- an outline starts like its text, unless it starts with a mark -/
theorem head?_outline_eq (hc : isAscii c = true) :
    (outline s).head? = some c ↔ s.head? = some c := by
  cases s with
  | nil => exact Iff.rfl
  | cons d s =>
    cases hd : isAscii d with
    | true => rw [outline_ascii hd, List.head?_cons, List.head?_cons]
    | false =>
      rw [outline_other hd, head?_marked, List.head?_cons, Option.some.injEq, Option.some.injEq]
      constructor
      · intro he
        exact absurd he.symm (ne_mark_of_isAscii hc)
      · rintro rfl
        rw [hc] at hd
        cases hd

/-! ### parts of an outline -/

theorem outline_append (hu : ∀ c ∈ u, isAscii c = true) (s : List Char) :
    outline (u ++ s) = u ++ outline s := by
  induction u with
  | nil => rfl
  | cons c u ih =>
    rw [List.cons_append, outline_ascii (hu c List.mem_cons_self),
      ih fun d hd => hu d (List.mem_cons_of_mem c hd), List.cons_append]

theorem marked_append (s : List Char) {c : Char} (hc : isAscii c = true) (t : List Char) :
    marked (s ++ c :: t) = marked s ++ c :: t := by
  cases s with
  | nil => exact marked_of_not_head fun h => ne_mark_of_isAscii hc (Option.some.inj h)
  | cons d s =>
    rw [marked, marked, List.cons_append, List.head?_cons, List.head?_cons]
    split
    · rfl
    · rfl

/-- an ASCII character of a marked text stands behind its mark -/
theorem exists_of_marked_eq (hc : isAscii c = true) (h : marked s = u ++ c :: v) :
    ∃ u', s = u' ++ c :: v ∧ marked u' = u := by
  have hhead : u.head? = some mark := by
    have hmarked := head?_marked s
    rw [h] at hmarked
    cases u with
    | nil => exact absurd (Option.some.inj hmarked) (ne_mark_of_isAscii hc)
    | cons d u => exact hmarked
  by_cases hmark : s.head? = some mark
  · rw [marked_of_head hmark] at h
    exact ⟨u, h, marked_of_head hhead⟩
  · rw [marked_of_not_head hmark] at h
    obtain ⟨more, rfl⟩ := List.head?_eq_some_iff.mp hhead
    have hs : s = more ++ c :: v := (List.cons.inj h).2
    refine ⟨more, hs, marked_of_not_head fun hmore => hmark ?_⟩
    obtain ⟨t, rfl⟩ := List.head?_eq_some_iff.mp hmore
    rw [hs]
    rfl

/-- no run goes over an ASCII character -/
theorem outline_append_cons (hc : isAscii c = true) (s t : List Char) :
    outline (s ++ c :: t) = outline s ++ c :: outline t := by
  induction s with
  | nil => exact outline_ascii hc t
  | cons d s ih =>
    cases hd : isAscii d with
    | true =>
      rw [List.cons_append, outline_ascii hd, outline_ascii hd, ih, List.cons_append]
    | false =>
      rw [List.cons_append, outline_other hd, outline_other hd, ih, marked_append _ hc]

theorem exists_of_outline_eq_cons (hc : isAscii c = true) (h : outline s = c :: v) :
    ∃ t, s = c :: t ∧ outline t = v := by
  obtain ⟨t, rfl⟩ : ∃ t, s = c :: t := by
    rw [← List.head?_eq_some_iff, ← head?_outline_eq hc, h]
    rfl
  rw [outline_ascii hc] at h
  exact ⟨t, rfl, (List.cons.inj h).2⟩

/-- ASCII text that starts an outline starts the text -/
theorem exists_of_outline_eq_append (hu : ∀ c ∈ u, isAscii c = true) (h : outline s = u ++ v) :
    ∃ t, s = u ++ t ∧ outline t = v := by
  induction u generalizing s with
  | nil => exact ⟨s, rfl, h⟩
  | cons c u ih =>
    obtain ⟨r, rfl, hr⟩ := exists_of_outline_eq_cons (hu c List.mem_cons_self) h
    obtain ⟨t, rfl, ht⟩ := ih (fun d hd => hu d (List.mem_cons_of_mem c hd)) hr
    exact ⟨t, rfl, ht⟩

/-- an outline is cut at an ASCII character where its text is cut -/
theorem exists_of_outline_eq (hc : isAscii c = true) (h : outline s = u ++ c :: v) :
    ∃ p q, s = p ++ c :: q ∧ outline p = u ∧ outline q = v := by
  induction s generalizing u with
  | nil => cases u <;> cases h
  | cons d s ih =>
    cases hd : isAscii d with
    | true =>
      rw [outline_ascii hd] at h
      cases u with
      | nil =>
        obtain ⟨rfl, hv⟩ := List.cons.inj h
        exact ⟨[], s, rfl, rfl, hv⟩
      | cons e u =>
        obtain ⟨rfl, hs⟩ := List.cons.inj h
        obtain ⟨p, q, rfl, rfl, hq⟩ := ih hs
        exact ⟨d :: p, q, rfl, outline_ascii hd p, hq⟩
    | false =>
      rw [outline_other hd] at h
      obtain ⟨u', hs, rfl⟩ := exists_of_marked_eq hc h
      obtain ⟨p, q, rfl, rfl, hq⟩ := ih hs
      exact ⟨d :: p, q, rfl, outline_other hd p, hq⟩

end

/-! ### readings of bytes -/

/-- every byte by itself -/
def decodeBytewise (s : Bytes) : List Char := s.map fun b => Char.ofNat b.toNat

theorem toNat_ofNat_byte (b : UInt8) : (Char.ofNat b.toNat).toNat = b.toNat :=
  toNat_ofNat (.inl (by have := b.toNat_lt; omega))

/-- **Two readings of the same bytes have the same outline**: byte by byte, and as far as they are
UTF-8. -/
theorem outline_decodeLossy (s : Bytes) : outline (decodeLossy s) = outline (decodeBytewise s) := by
  have hhigh (b : UInt8) (hb : 0x80 ≤ b) : isAscii (Char.ofNat b.toNat) = false := by
    rw [isAscii, toNat_ofNat_byte]
    exact decide_eq_false (Nat.not_lt.mpr (UInt8.le_iff_toNat_le.mp hb))
  rw [decodeLossy]
  induction s using pieces.induct with
  | case1 => rw [pieces]; rfl
  | case2 b s ih =>
    rw [pieces, List.map_cons]
    rcases takePiece_spec b s with ⟨hb, hpiece⟩ | ⟨hb, u, hs, hu, hread⟩
    · have hascii : isAscii (Char.ofNat b.toNat) = true := by
        rw [isAscii, toNat_ofNat_byte]
        exact decide_eq_true hb
      rw [hpiece] at ih ⊢
      rw [decodeBytewise, List.map_cons]
      show outline (Char.ofNat b.toNat :: _) = outline (Char.ofNat b.toNat :: _)
      rw [outline_ascii hascii, outline_ascii hascii, ih]
      rfl
    · -- one character or none, a piece of high bytes leaves the mark that its bytes leave
      have hfirst : isAscii ((takePiece b s).1.getD '\uFFFD') = false := by
        cases hchar : (takePiece b s).1 with
        | none => rfl
        | some c => exact hread c hchar
      have hne : decodeBytewise (b :: u) ≠ [] := List.cons_ne_nil _ _
      have hrun : ∀ c ∈ decodeBytewise (b :: u), isAscii c = false := by
        intro c hc
        obtain ⟨x, hx, rfl⟩ := List.mem_map.mp hc
        rcases List.mem_cons.mp hx with rfl | hx
        · exact hhigh x hb
        · exact hhigh x (hu x hx)
      have hbytes : decodeBytewise (b :: s) =
          decodeBytewise (b :: u) ++ decodeBytewise (takePiece b s).2 := by
        rw [decodeBytewise, decodeBytewise, decodeBytewise, ← List.map_append, List.cons_append,
          ← hs]
      rw [outline_other hfirst, ih, hbytes, outline_others hne hrun]

/-- one byte for each character below U+0100 -/
def latin (s : List Char) : Bytes := s.map fun c => UInt8.ofNat c.toNat

theorem decodeBytewise_latin {s : List Char} (h : ∀ c ∈ s, c.toNat < 0x100) :
    decodeBytewise (latin s) = s := by
  rw [decodeBytewise, latin, List.map_map]
  conv_rhs => rw [← List.map_id s]
  refine List.map_congr_left fun c hc => ?_
  rw [Function.comp_apply, toNat_byte (h c hc), Char.ofNat_toNat, id]

end VersionFloor.Text
