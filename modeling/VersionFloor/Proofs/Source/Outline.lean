import Mathlib.Data.List.Induction
import VersionFloor.Proofs.Source.Occurrence
import VersionFloor.Proofs.Source.Span
import VersionFloor.Proofs.Text.Outline

/-!
# Source: calls in outline

Tags, keywords, names and parentheses are ASCII, so the outline of a text has the outlines of its
regions (`regions_outline`), and a site that stands in an outline stands in the text.  A site of the
text is lost in the outline when it is spaced by blanks beyond ASCII, and one appears that is not in
the text when a word beyond ASCII goes on up to its keyword.  Where no occurrence of a name is like
that, a text and its outline have the same calls (`callsAsWritten_outline`).
-/

namespace VersionFloor.Source

open Text

/-! ### classes of ASCII characters -/

theorem isAscii_of_isNameChar {c : Char} (h : isNameChar c = true) : isAscii c = true := by
  have hle (d : Char) (hc : c ≤ d) (hd : d.toNat < 0x80) : isAscii c = true :=
    decide_eq_true (Nat.lt_of_le_of_lt hc hd)
  simp only [isNameChar, isAsciiWord, isAsciiLetter, isAsciiDigit, Bool.or_eq_true,
    Bool.and_eq_true, decide_eq_true_eq, beq_iff_eq] at h
  rcases h with ((((⟨-, h⟩ | ⟨-, h⟩) | ⟨-, h⟩) | rfl) | rfl) | rfl
  · exact hle 'z' h (by decide)
  · exact hle 'Z' h (by decide)
  · exact hle '9' h (by decide)
  · rfl
  · rfl
  · rfl

theorem isNameChar_of_other {c : Char} (h : isAscii c = false) : isNameChar c = false := by
  cases hc : isNameChar c with
  | false => rfl
  | true => rw [isAscii_of_isNameChar hc] at h; cases h

theorem isAscii_of_keyword {k : Keyword} {keyword : List Char}
    (h : keyword.map asciiLower = k.text) {c : Char} (hc : c ∈ keyword) : isAscii c = true :=
  isAscii_of_isNameChar
    (isNameChar_of_isAsciiWord (isAsciiWord_of_isAsciiLetter (isAsciiLetter_of_keyword h hc)))

/-- a mark is no blank -/
theorem isAscii_of_mem_outline {c : Char} {s : List Char} (h : c ∈ outline s)
    (hc : isBlank c = true) : isAscii c = true := by
  refine (mem_outline h).resolve_right ?_
  rintro rfl
  cases hc

theorem startsSame_iff_exists {start s : List Char} :
    startsSame start s = true ↔
      ∃ u t, s = u ++ t ∧ u.map asciiLower = start.map asciiLower := by
  rw [startsSame, beq_iff_eq]
  constructor
  · intro h
    exact ⟨_, _, (List.take_append_drop start.length s).symm, h⟩
  · rintro ⟨u, t, rfl, h⟩
    have hlen := congrArg List.length h
    rw [List.length_map, List.length_map] at hlen
    rw [← hlen, List.take_left, h]

theorem isAscii_of_map_asciiLower {start u : List Char} (hstart : ∀ c ∈ start, isAscii c = true)
    (h : u.map asciiLower = start.map asciiLower) : ∀ c ∈ u, isAscii c = true := by
  intro c hc
  have hmem : asciiLower c ∈ start.map asciiLower := h ▸ List.mem_map_of_mem hc
  obtain ⟨d, hd, hlower⟩ := List.mem_map.mp hmem
  rw [← isAscii_asciiLower, ← hlower, isAscii_asciiLower]
  exact hstart d hd

theorem startsSame_outline {start : List Char} (hstart : ∀ c ∈ start, isAscii c = true)
    (s : List Char) : startsSame start (outline s) = startsSame start s := by
  rw [Bool.eq_iff_iff, startsSame_iff_exists, startsSame_iff_exists]
  constructor
  · rintro ⟨u, v, houtline, hu⟩
    obtain ⟨t, hs, -⟩ :=
      exists_of_outline_eq_append (isAscii_of_map_asciiLower hstart hu) houtline
    exact ⟨u, t, hs, hu⟩
  · rintro ⟨u, t, rfl, hu⟩
    exact ⟨u, outline t, outline_append (isAscii_of_map_asciiLower hstart hu) t, hu⟩

/-! ### regions -/

theorem head?_takeBody (s : List Char) : (takeBody s).1.head? = s.head? := by
  fun_cases takeBody s with
  | case1 => rfl
  | case2 rest => rfl
  | case3 c rest hne body => rfl

theorem takeBody_marked (s : List Char) :
    takeBody (marked s) = (marked (takeBody s).1, (takeBody s).2) := by
  rw [marked, marked, head?_takeBody]
  split
  · rfl
  · exact takeBody_cons (.inl (by decide))

theorem takeBody_outline (s : List Char) :
    takeBody (outline s) = (outline (takeBody s).1, outline (takeBody s).2) := by
  fun_induction takeBody s with
  | case1 => rfl
  | case2 rest => rfl
  | case3 c rest hne body ih =>
    cases hc : isAscii c with
    | true =>
      have hnext : c ≠ '?' ∨ (outline rest).head? ≠ some '>' := by
        by_contra hboth
        rw [not_or, not_not, not_not, head?_outline_eq (by rfl)] at hboth
        obtain ⟨more, hmore⟩ := List.head?_eq_some_iff.mp hboth.2
        exact hne more hboth.1 hmore
      rw [outline_ascii hc, takeBody_cons hnext, ih, outline_ascii hc]
    | false => rw [outline_other hc, takeBody_marked, ih, outline_other hc]

theorem regions_marked (s : List Char) : regions (marked s) = regions s := by
  rw [marked]
  split
  · rfl
  · have hstart : startsSame openTag (mark :: s) = false := rfl
    rw [regions, if_neg (by rw [hstart]; decide)]

/-- **The regions of an outline are the outlines of the regions.** -/
theorem regions_outline (s : List Char) : regions (outline s) = (regions s).map outline := by
  fun_induction regions s with
  | case1 => rw [outline, regions]; rfl
  | case2 c rest hstart body ih =>
    have htag : (c :: rest.take 4).map asciiLower = openTag := by
      rw [← List.take_succ_cons, List.map_take]
      exact (List.prefix_iff_eq_take.mp (startsSame_openTag_iff.mp hstart)).symm
    have hascii : ∀ d ∈ c :: rest.take 4, isAscii d = true :=
      isAscii_of_map_asciiLower isAscii_openTag htag
    have hsplit : c :: rest = c :: rest.take 4 ++ rest.drop 4 := by
      rw [List.cons_append, List.take_append_drop]
    rw [hsplit, outline_append hascii, regions_tag htag, takeBody_outline, ih, List.map_cons,
      outline_append hascii]
  | case3 c rest hstart ih =>
    cases hc : isAscii c with
    | true =>
      have houtline : startsSame openTag (c :: outline rest) = startsSame openTag (c :: rest) := by
        rw [← outline_ascii hc, startsSame_outline isAscii_openTag]
      rw [outline_ascii hc, regions, if_neg (houtline ▸ hstart), ih]
    | false => rw [outline_other hc, regions_marked, ih]

/-! ### arguments -/

namespace Arguments

/-- the blanks around the parentheses are ASCII -/
def PlainlySpaced (a : Arguments) : Prop :=
  (∀ c ∈ a.before.chars, isAscii c = true) ∧ ∀ c ∈ a.behind.chars, isAscii c = true

def outlined (a : Arguments) : Arguments where
  before := a.before
  inside := outline a.inside
  closed h := a.closed ((mem_outline_iff rfl).mp h)
  behind := a.behind

theorem outline_text {a : Arguments} (h : a.PlainlySpaced) (rest : List Char) :
    outline (a.text ++ rest) = a.outlined.text ++ outline rest := by
  rw [text_append, opened, outline_append h.1, outline_ascii rfl, outline_append_cons rfl,
    outline_append h.2, outline_ascii rfl, text_append, opened]
  rfl

/-- arguments of an outline are arguments in the text -/
theorem exists_of_outline_eq_text {s v : List Char} {a : Arguments} (h : outline s = a.text ++ v) :
    ∃ (b : Arguments) (rest : List Char), s = b.text ++ rest ∧ outline rest = v := by
  have hspace {space : Space} (hmem : ∀ c ∈ space.chars, c ∈ outline s) :
      ∀ c ∈ space.chars, isAscii c = true :=
    fun c hc => isAscii_of_mem_outline (hmem c hc) (space.blank c hc)
  have hbefore : ∀ c ∈ a.before.chars, isAscii c = true :=
    hspace fun c hc => by simp [h, text, hc]
  have hbehind : ∀ c ∈ a.behind.chars, isAscii c = true :=
    hspace fun c hc => by simp [h, text, hc]
  rw [text_append, opened] at h
  obtain ⟨s₁, rfl, h₁⟩ := exists_of_outline_eq_append hbefore h
  obtain ⟨s₂, rfl, h₂⟩ := exists_of_outline_eq_cons rfl h₁
  obtain ⟨inside, s₃, rfl, hinside, h₃⟩ := exists_of_outline_eq rfl h₂
  obtain ⟨s₄, rfl, h₄⟩ := exists_of_outline_eq_append hbehind h₃
  obtain ⟨rest, rfl, hrest⟩ := exists_of_outline_eq_cons rfl h₄
  have hclosed : ')' ∉ inside := by
    rw [← mem_outline_iff rfl, hinside]
    exact a.closed
  exact ⟨⟨a.before, inside, hclosed, a.behind⟩, rest, by rw [text_append, opened], hrest⟩

end Arguments

/-! ### what spoils an outline -/

/-- the blanks of a call are ASCII, and no word beyond ASCII goes on up to its keyword -/
structure Occurrence.PlainlySpaced {r : List Char} (o : Occurrence r) : Prop where
  arguments : o.arguments.PlainlySpaced
  lead : ∀ k front lead, o.front = front ++ lead → isLead k lead = true →
    (∀ c ∈ lead, isAscii c = true) ∧ ∀ c ∈ front.getLast?, isWord c = true → isAscii c = true

/-- all calls of a text, in all its regions -/
def PlainlySpaced (s : List Char) : Prop :=
  ∀ r ∈ regions s, ∀ o : Occurrence r, o.PlainlySpaced

/-- regions without blanks beyond ASCII, and without keywords right behind a letter beyond ASCII -/
theorem plainlySpaced_of_regions {s : List Char}
    (hblank : ∀ r ∈ regions s, r.all (fun c => !isBlank c || isAscii c) = true)
    (hkeyword : ∀ r ∈ regions s, ∀ i < r.length, ∀ k ∈ [Keyword.new, .function],
      startsSame k.text (r.drop i) = true →
        (r.take i).getLast?.all (fun c => !isWord c || isAscii c) = true) : PlainlySpaced s := by
  intro r hr o
  have hspace {blanks : List Char} (hspace : ∀ c ∈ blanks, isBlank c = true)
      (hmem : ∀ c ∈ blanks, c ∈ r) : ∀ c ∈ blanks, isAscii c = true := by
    intro c hc
    have hor := List.all_eq_true.mp (hblank r hr) c (hmem c hc)
    rwa [hspace c hc] at hor
  refine ⟨⟨hspace o.arguments.before.blank ?_, hspace o.arguments.behind.blank ?_⟩, ?_⟩
  · intro c hc
    rw [o.text_eq]
    simp [Arguments.text, hc]
  · intro c hc
    rw [o.text_eq]
    simp [Arguments.text, hc]
  · intro k front lead hfront hlead
    obtain ⟨keyword, gap, rfl, hlower, -, hgap⟩ := isLead_iff.mp hlead
    have htext := o.text_eq
    rw [hfront, List.append_assoc, List.append_assoc] at htext
    constructor
    · intro c hc
      rcases List.mem_append.mp hc with hc | hc
      · exact isAscii_of_keyword hlower hc
      · exact hspace hgap (fun c hc => by rw [htext]; simp [hc]) c hc
    · have hlen : k.text.length = keyword.length := by rw [← hlower, List.length_map]
      have hstart : startsSame k.text (r.drop front.length) = true := by
        rw [htext, List.drop_left, k.startsSame_iff, hlen, List.take_left, hlower]
      have hpos : front.length < r.length := by
        have hne : keyword.length ≠ 0 := by rw [← hlen]; cases k <;> decide
        rw [htext]
        simp only [List.length_append]
        omega
      have hlast := hkeyword r hr front.length hpos k (by cases k <;> decide) hstart
      rw [htext, List.take_left] at hlast
      intro c hc hword
      rwa [hc, Option.all_some, hword] at hlast

/-- a name is a part of one whole name with the same arguments -/
theorem exists_occurrence_of_append {r front name rest : List Char} {a : Arguments}
    (hr : r = front ++ (name ++ (a.text ++ rest))) (hne : name ≠ [])
    (hname : ∀ c ∈ name, isNameChar c = true) : ∃ o : Occurrence r, o.arguments = a := by
  induction front using List.reverseRecOn generalizing name with
  | nil => exact ⟨⟨[], name, a, rest, hr, hne, hname, rfl, a.head?_text rest⟩, rfl⟩
  | append_singleton front c ih =>
    cases hc : isNameChar c with
    | true =>
      rw [List.append_assoc] at hr
      exact ih hr (List.cons_ne_nil c name) (List.forall_mem_cons.mpr ⟨hc, hname⟩)
    | false =>
      have hlast : (front ++ [c]).getLast?.any isNameChar = false := by
        rw [List.getLast?_concat]
        exact hc
      exact ⟨⟨front ++ [c], name, a, rest, hr, hne, hname, hlast, a.head?_text rest⟩, rfl⟩

/-- the occurrence of a site with a keyword -/
theorem exists_occurrence_of_takeAfter {r front s after : List Char} {k : Keyword} {site : Site}
    (hr : r = front ++ s) (hfound : takeAfter k s = some (site, after)) :
    ∃ (o : Occurrence r) (lead : List Char), o.front = front ++ lead ∧ isLead k lead = true ∧
      site = ⟨some k, o.name⟩ ∧ s = lead ++ (o.name ++ (o.arguments.text ++ after)) := by
  obtain ⟨lead, t, rfl, hlead, hkeyword, hne, hname, a, rfl⟩ := opens_of_takeAfter hfound
  have hlast : (front ++ lead).getLast?.any isNameChar = false := by
    rw [List.getLast?_append_of_ne_nil front (by rintro rfl; cases k <;> cases hlead)]
    exact getLast?_of_isLead hlead
  refine ⟨⟨front ++ lead, site.name, a, after, ?_, hne, hname, hlast, a.head?_text after⟩, lead, rfl,
    hlead, ?_, rfl⟩
  · rw [hr, List.append_assoc]
  · rw [← hkeyword]

/-! ### one place of the text -/

/-- a found site, with the outline of what follows -/
def inOutline (found : Site × List Char) : Site × List Char := (found.1, outline found.2)

/-- the character in an outline -/
def shade (c : Char) : Char := if isAscii c then c else mark

theorem isWord_mark : isWord mark = false := by decide +kernel

theorem isWordStart_shade {before : Option Char}
    (h : ∀ c ∈ before, isWord c = true → isAscii c = true) (c : Char) :
    isWordStart (before.map shade) c = isWordStart before c := by
  rw [isWordStart, isWordStart]
  cases before with
  | none => rfl
  | some d =>
    show (isWord c && !isWord (shade d)) = (isWord c && !isWord d)
    rw [shade]
    cases hd : isAscii d with
    | true => rfl
    | false =>
      have hword : isWord d = false := by
        rw [Bool.eq_false_iff]
        intro hword
        rw [h d rfl hword] at hd
        cases hd
      show (isWord c && !isWord mark) = _
      rw [hword, isWord_mark]

/-- the keyword and the blanks of an outline are ASCII -/
theorem isAscii_of_mem_lead {k : Keyword} {lead s t : List Char} (hlead : isLead k lead = true)
    (h : outline s = lead ++ t) : ∀ c ∈ lead, isAscii c = true := by
  obtain ⟨keyword, gap, rfl, hkeyword, -, hblank⟩ := isLead_iff.mp hlead
  intro c hc
  rcases List.mem_append.mp hc with hc | hc
  · exact isAscii_of_keyword hkeyword hc
  · exact isAscii_of_mem_outline (h ▸ List.mem_append_left t (List.mem_append_right _ hc))
      (hblank c hc)

theorem eq_map_of_forall {α β : Type} {x : Option α} {y : Option β} {f : α → β}
    (hsome : ∀ a, x = some a → y = some (f a)) (hnone : ∀ b, y = some b → x ≠ none) :
    y = x.map f := by
  cases hx : x with
  | some a => exact hsome a hx
  | none => exact Option.eq_none_iff_forall_ne_some.mpr fun b hb => hnone b hb hx

section

variable {r : List Char} (h : ∀ o : Occurrence r, o.PlainlySpaced) {front s : List Char}

include h

theorem takeNamed_outline (hr : r = front ++ s) (k : Option Keyword) :
    takeNamed k (outline s) = (takeNamed k s).map inOutline := by
  refine eq_map_of_forall ?_ ?_
  · rintro ⟨site, after⟩ hfound
    obtain ⟨rfl, hne, hname, a, rfl⟩ := opens_of_takeNamed hfound
    obtain ⟨o, rfl⟩ := exists_occurrence_of_append hr hne hname
    rw [outline_append fun c hc => isAscii_of_isNameChar (hname c hc),
      Arguments.outline_text (h o).arguments, takeNamed_text _ hne hname]
    rfl
  · rintro ⟨site, after⟩ hfound hnone
    obtain ⟨rfl, hne, hname, a, houtline⟩ := opens_of_takeNamed hfound
    obtain ⟨t, rfl, ht⟩ := exists_of_outline_eq_append
      (fun c hc => isAscii_of_isNameChar (hname c hc)) houtline
    obtain ⟨b, rest, rfl, -⟩ := Arguments.exists_of_outline_eq_text ht
    rw [takeNamed_text _ hne hname] at hnone
    cases hnone

theorem takeAfter_outline (hr : r = front ++ s) (k : Keyword) :
    takeAfter k (outline s) = (takeAfter k s).map inOutline := by
  refine eq_map_of_forall ?_ ?_
  · rintro ⟨site, after⟩ hfound
    obtain ⟨o, lead, hfront, hlead, rfl, rfl⟩ := exists_occurrence_of_takeAfter hr hfound
    rw [outline_append ((h o).lead k front lead hfront hlead).1,
      outline_append fun c hc => isAscii_of_isNameChar (o.word c hc),
      Arguments.outline_text (h o).arguments, takeAfter_lead hlead o.ne_nil o.word]
    rfl
  · rintro ⟨site, after⟩ hfound hnone
    obtain ⟨lead, t, houtline, hlead, -, hne, hname, a, rfl⟩ := opens_of_takeAfter hfound
    obtain ⟨t, rfl, ht⟩ :=
      exists_of_outline_eq_append (isAscii_of_mem_lead hlead houtline) houtline
    obtain ⟨u, rfl, hu⟩ := exists_of_outline_eq_append
      (fun c hc => isAscii_of_isNameChar (hname c hc)) ht
    obtain ⟨b, rest, rfl, -⟩ := Arguments.exists_of_outline_eq_text hu
    rw [takeAfter_lead hlead hne hname] at hnone
    cases hnone

theorem takeSite_outline {c : Char} (hr : r = front ++ c :: s) (hc : isAscii c = true) :
    takeSite (front.getLast?.map shade) c (outline s) =
      (takeSite front.getLast? c s).map inOutline := by
  have hnamed := takeNamed_outline h hr none
  have hafter := takeAfter_outline h hr
  rw [outline_ascii hc] at hnamed hafter
  rw [takeSite, takeSite, hnamed, Option.map_or]
  congr 1
  by_cases hstart : isWordStart (front.getLast?.map shade) c = isWordStart front.getLast? c
  · rw [hstart]
    split
    · rw [hafter, hafter, Option.map_or]
    · rfl
  · -- in the text a word beyond ASCII goes on here, so no occurrence has its keyword here
    have hnone (k : Keyword) : takeAfter k (c :: s) = none := by
      refine Option.eq_none_iff_forall_ne_some.mpr ?_
      rintro ⟨site, after⟩ hfound
      obtain ⟨o, lead, hfront, hlead, -⟩ := exists_occurrence_of_takeAfter hr hfound
      refine hstart (isWordStart_shade ?_ c)
      exact ((h o).lead k front lead hfront hlead).2
    rw [hafter, hafter, hnone, hnone]
    simp

omit h in
/-- sites start with ASCII characters -/
theorem takeSite_other {c : Char} (hc : isAscii c = false) (before : Option Char) (s : List Char) :
    takeSite before c s = none := by
  have hunmarked (k : Keyword) : startsSame k.text (c :: s) = false := by
    rw [Bool.eq_false_iff]
    intro hstart
    have hmem : c ∈ (c :: s).take k.text.length := by cases k <;> exact List.mem_cons_self
    rw [isAscii_of_keyword (k.startsSame_iff.mp hstart) hmem] at hc
    cases hc
  rw [takeSite_of_unmarked hunmarked, takeNamed_eq_none_of_head (isNameChar_of_other hc)]

omit h in
theorem sites_marked (before : Option Char) (s : List Char) :
    sites before (marked s) = sites (some mark) s := by
  have hmark (before : Option Char) (t : List Char) :
      sites before (mark :: t) = sites (some mark) t :=
    sites_of_none (takeSite_other isAscii_mark before t)
  rw [marked]
  split
  · rename_i hhead
    obtain ⟨t, rfl⟩ := List.head?_eq_some_iff.mp hhead
    rw [hmark, hmark]
  · exact hmark before s

/-! ### the whole text -/

/-- **A scan finds in an outline what it finds in the text**, when all is plainly spaced. -/
theorem sites_outline (hr : r = front ++ s) :
    sites (front.getLast?.map shade) (outline s) = sites front.getLast? s := by
  generalize hbefore : front.getLast? = before
  -- `front` is what the scan has passed: occurrences are told of the whole region
  fun_induction sites before s generalizing front with
  | case1 before => rw [outline, sites]
  | case2 before c s site after htake ih =>
    subst hbefore
    have hc : isAscii c = true := by
      rw [← Bool.not_eq_false]
      intro hc
      rw [takeSite_other hc] at htake
      cases htake
    have hfound := takeSite_outline h hr hc
    rw [htake] at hfound
    obtain ⟨u, hu⟩ := takeSite_suffix htake
    have hafter : r = (front ++ u ++ [';']) ++ after := by
      rw [hr, ← hu]
      simp
    rw [outline_ascii hc, sites_of_some hfound]
    exact congrArg (site :: ·) (ih hafter (List.getLast?_concat ..))
  | case3 before c s htake ih =>
    subst hbefore
    have hnext := ih (by rw [hr]; simp : r = (front ++ [c]) ++ s) (List.getLast?_concat ..)
    rw [Option.map_some, shade] at hnext
    cases hc : isAscii c with
    | true =>
      have hnone := takeSite_outline h hr hc
      rw [htake] at hnone
      rw [hc] at hnext
      rw [outline_ascii hc, sites_of_none hnone]
      exact hnext
    | false =>
      rw [hc] at hnext
      rw [outline_other hc, sites_marked]
      exact hnext

end

/-- **A text and its outline have the same calls** when the text is plainly spaced. -/
theorem callsAsWritten_outline {s : List Char} (h : PlainlySpaced s) :
    callsAsWritten (outline s) = callsAsWritten s := by
  rw [callsAsWritten, callsAsWritten, regions_outline, List.flatMap_map]
  refine List.flatMap_congr fun r hr => ?_
  have hsites : sites none (outline r) = sites none r :=
    sites_outline (h r hr) (List.nil_append r).symm
  rw [hsites]

theorem calls_eq_of_outline_eq {s t : List Char} (h : outline s = outline t) (hs : PlainlySpaced s)
    (ht : PlainlySpaced t) : calls s = calls t := by
  rw [calls, calls, ← callsAsWritten_outline hs, ← callsAsWritten_outline ht, h]

end VersionFloor.Source
