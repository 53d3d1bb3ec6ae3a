import Mathlib.Data.List.Basic
import VersionFloor.Proofs.Source.Region

/-!
# Source: texts as gaps and regions

A layout is a row of regions, each behind a gap, and a last gap; it is exact when no opening tag
stands in a gap and no region goes on behind a closing tag.  Every text has one exact layout
(`existsUnique_exact`), and its regions are those that are found (`Layout.Exact.regions_eq`).
-/

namespace VersionFloor.Source

open Text

def closeTag : List Char := ['?', '>']

/-- an opening tag stands in the text, in any case -/
def HoldsTag (s : List Char) : Prop := openTag <:+: s.map asciiLower

/-- the text starts with an opening tag, in any case -/
def StartsWithTag (s : List Char) : Prop := openTag <+: s.map asciiLower

instance (s : List Char) : Decidable (HoldsTag s) := inferInstanceAs (Decidable (_ <:+: _))

/-- a text that ends with its first closing tag, or that has none, behind an opening tag -/
structure IsRegion (r : List Char) : Prop where
  opens : StartsWithTag r
  closes : ∀ before behind, r.drop openTag.length = before ++ (closeTag ++ behind) → behind = []

def IsClosed (r : List Char) : Prop := closeTag <:+: r.drop openTag.length

instance (r : List Char) : Decidable (IsClosed r) := inferInstanceAs (Decidable (_ <:+: _))

/-- a region behind a gap -/
structure Passage where
  gap : List Char
  region : List Char

structure Layout where
  passages : List Passage
  last : List Char

namespace Layout

def text (l : Layout) : List Char := l.passages.flatMap (fun p => p.gap ++ p.region) ++ l.last

def regions (l : Layout) : List (List Char) := l.passages.map Passage.region

structure Exact (l : Layout) : Prop where
  gaps : ∀ p ∈ l.passages, ¬ HoldsTag p.gap
  last_gap : ¬ HoldsTag l.last
  regions : ∀ p ∈ l.passages, IsRegion p.region
  /-- only the end of the text ends a region that is not closed -/
  ends : ∀ front p back, l.passages = front ++ p :: back → ¬ IsClosed p.region →
    back = [] ∧ l.last = []

theorem text_cons (p : Passage) (ps : List Passage) (last : List Char) :
    text ⟨p :: ps, last⟩ = p.gap ++ (p.region ++ text ⟨ps, last⟩) := by
  simp only [text, List.flatMap_cons, List.append_assoc]

theorem exact_nil {last : List Char} (h : ¬ HoldsTag last) : Exact ⟨[], last⟩ where
  gaps _ hp := absurd hp List.not_mem_nil
  last_gap := h
  regions _ hp := absurd hp List.not_mem_nil
  ends front p back he _ := absurd he (by simp)

theorem exact_cons {p : Passage} {ps : List Passage} {last : List Char} :
    Exact ⟨p :: ps, last⟩ ↔
      ¬ HoldsTag p.gap ∧ IsRegion p.region ∧ (¬ IsClosed p.region → ps = [] ∧ last = []) ∧
        Exact ⟨ps, last⟩ := by
  constructor
  · intro h
    refine ⟨h.gaps p List.mem_cons_self, h.regions p List.mem_cons_self, h.ends [] p ps rfl,
      ⟨fun q hq => h.gaps q (List.mem_cons_of_mem _ hq), h.last_gap,
        fun q hq => h.regions q (List.mem_cons_of_mem _ hq), ?_⟩⟩
    intro front q back he
    exact h.ends (p :: front) q back (congrArg (p :: ·) he)
  · rintro ⟨hgap, hregion, hend, h⟩
    refine ⟨List.forall_mem_cons.mpr ⟨hgap, h.gaps⟩, h.last_gap,
      List.forall_mem_cons.mpr ⟨hregion, h.regions⟩, ?_⟩
    intro front q back he
    cases front with
    | nil =>
      obtain ⟨rfl, rfl⟩ := List.cons.inj he
      exact hend
    | cons _ front => exact h.ends front q back (List.cons.inj he).2

end Layout

/-! ### opening tags -/

theorem startsSame_openTag_iff {s : List Char} :
    startsSame openTag s = true ↔ StartsWithTag s := by
  have hlower : openTag.map asciiLower = openTag := by decide
  rw [startsSame, beq_iff_eq, hlower, StartsWithTag, List.map_take, eq_comm,
    List.prefix_iff_eq_take]

theorem StartsWithTag.append {s : List Char} (h : StartsWithTag s) (t : List Char) :
    StartsWithTag (s ++ t) := by
  rw [StartsWithTag, List.map_append]
  exact h.trans (List.prefix_append _ _)

theorem StartsWithTag.ne_nil {s : List Char} (h : StartsWithTag s) : s ≠ [] := by
  rintro rfl
  exact absurd (List.prefix_nil.mp h) (by decide)

theorem not_holdsTag_nil : ¬ HoldsTag [] := fun h => absurd (List.infix_nil.mp h) (by decide)

theorem HoldsTag.append_left {s : List Char} (h : HoldsTag s) (t : List Char) :
    HoldsTag (t ++ s) := by
  rw [HoldsTag, List.map_append]
  exact h.trans (List.suffix_append _ _).isInfix

/-- A tag that starts in front of a tag, or of the end, ends there too: its first character comes
only once in it. -/
theorem holdsTag_of_startsWithTag_append {s t : List Char} (hs : s ≠ [])
    (ht : t = [] ∨ StartsWithTag t) (h : StartsWithTag (s ++ t)) : HoldsTag s := by
  rw [StartsWithTag, List.map_append] at h
  rcases List.prefix_or_prefix_of_prefix h (List.prefix_append _ _) with hin | ⟨rest, hrest⟩
  · exact hin.isInfix
  cases hs' : s.map asciiLower with
  | nil => exact absurd (List.map_eq_nil_iff.mp hs') hs
  | cons c cs =>
    rw [hs', List.cons_append] at hrest
    have htail : cs ++ rest = "?php".toList := (List.cons.inj hrest).2
    cases rest with
    | nil =>
      have hself : s.map asciiLower = openTag := by rw [hs', ← hrest, List.append_nil]
      exact ⟨[], [], (List.append_nil _).trans hself.symm⟩
    | cons d rest =>
      rw [hs', ← hrest, ← List.cons_append, List.prefix_append_right_inj] at h
      have hd : d = '<' := by
        rcases ht with rfl | ht
        · exact absurd (List.prefix_nil.mp h) (List.cons_ne_nil _ _)
        · obtain ⟨more, hmore⟩ := ht
          rw [← hmore] at h
          exact (List.cons_prefix_cons.mp h).1
      have hmem : '<' ∈ "?php".toList := by
        rw [← htail, hd]
        exact List.mem_append_right _ List.mem_cons_self
      exact absurd hmem (by decide)

/-- in front of the same tag, or of the end, a gap is known by the whole -/
theorem gap_eq_of_append_eq {g g' s s' : List Char} (hg : ¬ HoldsTag g) (hg' : ¬ HoldsTag g')
    (hs : s = [] ∨ StartsWithTag s) (hs' : s' = [] ∨ StartsWithTag s')
    (h : g ++ s = g' ++ s') : g = g' ∧ s = s' := by
  -- what one gap has more starts with the tag of the other side
  have hnone {a t : List Char} (ha : ¬ HoldsTag a) (ht : t = [] ∨ StartsWithTag t)
      (hat : a ++ t = [] ∨ StartsWithTag (a ++ t)) : a = [] := by
    by_contra hne
    rcases hat with hat | hat
    · exact hne (List.append_eq_nil_iff.mp hat).1
    · exact ha (holdsTag_of_startsWithTag_append hne ht hat)
  rcases List.append_eq_append_iff.mp h with ⟨a, rfl, rfl⟩ | ⟨a, rfl, rfl⟩
  · have ha : a = [] := hnone (fun h => hg' (h.append_left g)) hs' hs
    rw [ha, List.append_nil]
    exact ⟨rfl, rfl⟩
  · have ha : a = [] := hnone (fun h => hg (h.append_left g')) hs hs'
    rw [ha, List.append_nil]
    exact ⟨rfl, rfl⟩

/-! ### finding regions -/

/-- no region starts in a gap -/
theorem regions_gap {g s : List Char} (hg : ¬ HoldsTag g) (hs : s = [] ∨ StartsWithTag s) :
    regions (g ++ s) = regions s := by
  induction g with
  | nil => rfl
  | cons c g ih =>
    have hstart : ¬ startsSame openTag (c :: (g ++ s)) = true := fun h =>
      hg (holdsTag_of_startsWithTag_append (List.cons_ne_nil c g) hs
        (startsSame_openTag_iff.mp h))
    rw [List.cons_append, regions, if_neg hstart]
    exact ih fun h => hg (h.append_left [c])

theorem regions_tag {tag : List Char} (htag : tag.map asciiLower = openTag) (s : List Char) :
    regions (tag ++ s) = (tag ++ (takeBody s).1) :: regions (takeBody s).2 := by
  have hlen : tag.length = 5 := by
    have h := congrArg List.length htag
    rw [List.length_map] at h
    exact h
  have hstart : startsSame openTag (tag ++ s) = true := by
    rw [startsSame_openTag_iff, StartsWithTag, List.map_append, htag]
    exact List.prefix_append _ _
  match tag, hlen with
  | [a, b, c, d, e], _ =>
    rw [List.cons_append] at hstart ⊢
    rw [regions, if_pos hstart]
    rfl

theorem drop_tag {tag : List Char} (htag : tag.map asciiLower = openTag) (s : List Char) :
    (tag ++ s).drop openTag.length = s := by
  rw [← htag, List.length_map, List.drop_left]

theorem takeBody_append (s : List Char) : (takeBody s).1 ++ (takeBody s).2 = s := by
  fun_induction takeBody s with
  | case1 => rfl
  | case2 rest => rfl
  | case3 c rest _ body ih => exact congrArg (c :: ·) ih

/-- what is taken ends with the first closing tag in it -/
theorem takeBody_closes (s : List Char) : ∀ before behind,
    (takeBody s).1 = before ++ (closeTag ++ behind) → behind = [] := by
  fun_induction takeBody s with
  | case1 =>
    intro before behind h
    exact absurd h (by simp [closeTag])
  | case2 rest =>
    intro before behind h
    have hlen := congrArg List.length h
    simp only [List.length_append, List.length_cons, List.length_nil, closeTag] at hlen
    exact List.length_eq_zero_iff.mp (by omega)
  | case3 c rest hne body ih =>
    intro before behind h
    cases before with
    | nil =>
      obtain ⟨rfl, hbody⟩ := List.cons.inj h
      have hrest : rest = '>' :: (behind ++ (takeBody rest).2) := by
        rw [← List.cons_append]
        exact (takeBody_append rest).symm.trans (congrArg (· ++ (takeBody rest).2) hbody)
      exact absurd hrest (hne _ rfl)
    | cons b before => exact ih before behind (List.cons.inj h).2

/-- only a closing tag leaves something behind -/
theorem takeBody_of_not_closed {s : List Char} (h : ¬ closeTag <:+: (takeBody s).1) :
    takeBody s = (s, []) := by
  fun_induction takeBody s with
  | case1 => rfl
  | case2 rest => exact absurd List.infix_rfl h
  | case3 c rest hne body ih =>
    have hbody : takeBody rest = (rest, []) :=
      ih fun hin => h (hin.trans (List.suffix_cons c _).isInfix)
    show (c :: (takeBody rest).1, (takeBody rest).2) = _
    rw [hbody]

/-- a body that is closed ends where its closing tag does -/
theorem takeBody_of_closed {body : List Char}
    (hcloses : ∀ before behind, body = before ++ (closeTag ++ behind) → behind = [])
    (hclosed : closeTag <:+: body) (rest : List Char) : takeBody (body ++ rest) = (body, rest) := by
  induction body with
  | nil => exact absurd (List.infix_nil.mp hclosed) (by decide)
  | cons c body ih =>
    rcases List.infix_cons_iff.mp hclosed with ⟨behind, hbehind⟩ | hin
    · obtain ⟨rfl, rfl⟩ := List.cons.inj hbehind
      rw [hcloses [] behind rfl]
      rfl
    · have hne : body ≠ [] := by
        rintro rfl
        exact absurd (List.infix_nil.mp hin) (by decide)
      have hnext : c ≠ '?' ∨ (body ++ rest).head? ≠ some '>' := by
        by_contra hboth
        rw [not_or, not_not, not_not, List.head?_append_of_ne_nil body hne] at hboth
        obtain ⟨rfl, hhead⟩ := hboth
        obtain ⟨d, more, rfl⟩ := List.exists_cons_of_ne_nil hne
        cases Option.some.inj hhead
        rw [hcloses [] more rfl] at hin
        exact absurd hin (by decide)
      have hbody : takeBody (body ++ rest) = (body, rest) :=
        ih (fun before behind h => hcloses (c :: before) behind (congrArg (c :: ·) h)) hin
      rw [List.cons_append, takeBody_cons hnext, hbody]

theorem takeBody_of_open {body : List Char} (h : ¬ closeTag <:+: body) :
    takeBody body = (body, []) := by
  refine takeBody_of_not_closed fun hin => h ?_
  have hprefix : (takeBody body).1 <+: body := ⟨_, takeBody_append body⟩
  exact hin.trans hprefix.isInfix

namespace IsRegion

variable {r : List Char}

theorem exists_tag (h : IsRegion r) :
    ∃ tag, tag.map asciiLower = openTag ∧ r = tag ++ r.drop openTag.length := by
  refine ⟨r.take openTag.length, ?_, (List.take_append_drop _ _).symm⟩
  rw [List.map_take]
  exact (List.prefix_iff_eq_take.mp h.opens).symm

theorem regions_of_closed (h : IsRegion r) (hc : IsClosed r) (rest : List Char) :
    regions (r ++ rest) = r :: regions rest := by
  obtain ⟨tag, htag, hr⟩ := h.exists_tag
  have hbody := takeBody_of_closed h.closes hc rest
  rw [hr, List.append_assoc, regions_tag htag, hbody]

theorem regions_of_open (h : IsRegion r) (hc : ¬ IsClosed r) : regions r = [r] := by
  obtain ⟨tag, htag, hr⟩ := h.exists_tag
  have hbody := takeBody_of_open hc
  rw [hr, regions_tag htag, hbody, regions]

/-- a region is its own only region -/
theorem regions_eq (h : IsRegion r) : regions r = [r] := by
  by_cases hc : IsClosed r
  · have hr := h.regions_of_closed hc []
    rw [List.append_nil, regions] at hr
    exact hr
  · exact h.regions_of_open hc

end IsRegion

/-- a region can be told by reading it once -/
theorem isRegion_iff {r : List Char} :
    IsRegion r ↔ startsSame openTag r = true ∧ (takeBody (r.drop openTag.length)).2 = [] := by
  rw [startsSame_openTag_iff]
  constructor
  · intro h
    refine ⟨h.opens, ?_⟩
    by_cases hc : closeTag <:+: r.drop openTag.length
    · have hbody := takeBody_of_closed h.closes hc []
      rw [List.append_nil] at hbody
      rw [hbody]
    · rw [takeBody_of_open hc]
  · rintro ⟨hopens, hbody⟩
    have hall : (takeBody (r.drop openTag.length)).1 = r.drop openTag.length := by
      have happend := takeBody_append (r.drop openTag.length)
      rw [hbody, List.append_nil] at happend
      exact happend
    exact ⟨hopens, fun before behind h => takeBody_closes _ before behind (hall.trans h)⟩

/-! ### the layout of a text -/

namespace Layout

/-- **A text that is put together from gaps and regions has these regions.** -/
theorem Exact.regions_eq {l : Layout} (h : l.Exact) : Source.regions l.text = l.regions := by
  obtain ⟨passages, last⟩ := l
  induction passages with
  | nil =>
    have hlast := regions_gap h.last_gap (.inl rfl)
    rw [List.append_nil, Source.regions] at hlast
    exact hlast
  | cons p ps ih =>
    obtain ⟨hgap, hregion, hend, hrest⟩ := exact_cons.mp h
    rw [text_cons, regions_gap hgap (.inr (hregion.opens.append _))]
    by_cases hc : IsClosed p.region
    · rw [hregion.regions_of_closed hc, ih hrest]
      rfl
    · obtain ⟨rfl, rfl⟩ := hend hc
      show Source.regions (p.region ++ []) = [p.region]
      rw [List.append_nil, hregion.regions_of_open hc]

theorem Exact.eq_of_text_eq_nil {l : Layout} (h : l.Exact) (htext : l.text = []) :
    l = ⟨[], []⟩ := by
  obtain ⟨passages, last⟩ := l
  cases passages with
  | nil => exact congrArg (Layout.mk []) htext
  | cons p ps =>
    rw [text_cons] at htext
    have hregion := (List.append_eq_nil_iff.mp (List.append_eq_nil_iff.mp htext).2).1
    exact absurd hregion (h.regions p List.mem_cons_self).opens.ne_nil

/-- a character in front of a text goes into its first gap -/
theorem Exact.exists_cons {l : Layout} (h : l.Exact) {c : Char}
    (hc : ¬ StartsWithTag (c :: l.text)) : ∃ l' : Layout, l'.Exact ∧ l'.text = c :: l.text := by
  obtain ⟨passages, last⟩ := l
  -- a tag in the longer gap would start at the new character
  have hgap {g : List Char} (hg : ¬ HoldsTag g) (hstart : ¬ StartsWithTag (c :: g)) :
      ¬ HoldsTag (c :: g) := by
    intro hin
    rcases List.infix_cons_iff.mp hin with hin | hin
    · exact hstart hin
    · exact hg hin
  cases passages with
  | nil => exact ⟨⟨[], c :: last⟩, exact_nil (hgap h.last_gap hc), rfl⟩
  | cons p ps =>
    obtain ⟨hp, hregion, hend, hrest⟩ := exact_cons.mp h
    rw [text_cons] at hc
    have hstart : ¬ StartsWithTag (c :: p.gap) := fun hs => hc (hs.append _)
    exact ⟨⟨⟨c :: p.gap, p.region⟩ :: ps, last⟩,
      exact_cons.mpr ⟨hgap hp hstart, hregion, hend, hrest⟩, by rw [text_cons, text_cons]; rfl⟩

theorem exists_exact (s : List Char) : ∃ l : Layout, l.Exact ∧ l.text = s := by
  fun_induction Source.regions s with
  | case1 => exact ⟨⟨[], []⟩, exact_nil not_holdsTag_nil, rfl⟩
  | case2 c rest hstart body ih =>
    obtain ⟨l, hl, htext⟩ := ih
    have htag : (c :: rest.take 4).map asciiLower = openTag := by
      rw [← List.take_succ_cons, List.map_take]
      exact (List.prefix_iff_eq_take.mp (startsSame_openTag_iff.mp hstart)).symm
    have hbehind : (c :: rest.take 4 ++ body.1).drop openTag.length = body.1 := drop_tag htag _
    have hregion : IsRegion (c :: rest.take 4 ++ body.1) := by
      refine ⟨?_, fun before behind h => takeBody_closes _ before behind (hbehind.symm.trans h)⟩
      rw [StartsWithTag, List.map_append, htag]
      exact List.prefix_append _ _
    have hend : ¬ IsClosed (c :: rest.take 4 ++ body.1) → l.passages = [] ∧ l.last = [] := by
      intro hc
      rw [IsClosed, hbehind] at hc
      have hbody : body = (rest.drop 4, []) := takeBody_of_not_closed hc
      rw [hl.eq_of_text_eq_nil (htext.trans (congrArg Prod.snd hbody))]
      exact ⟨rfl, rfl⟩
    refine ⟨⟨⟨[], c :: rest.take 4 ++ body.1⟩ :: l.passages, l.last⟩,
      exact_cons.mpr ⟨not_holdsTag_nil, hregion, hend, hl⟩, ?_⟩
    calc text ⟨⟨[], c :: rest.take 4 ++ body.1⟩ :: l.passages, l.last⟩
        = c :: rest.take 4 ++ body.1 ++ l.text := text_cons ..
      _ = c :: rest.take 4 ++ (body.1 ++ body.2) := by rw [htext, List.append_assoc]
      _ = c :: (rest.take 4 ++ rest.drop 4) := by rw [takeBody_append, List.cons_append]
      _ = c :: rest := by rw [List.take_append_drop]
  | case3 c rest hstart ih =>
    obtain ⟨l, hl, htext⟩ := ih
    obtain ⟨l', hl', htext'⟩ := hl.exists_cons (c := c)
      fun hs => hstart (startsSame_openTag_iff.mpr (htext ▸ hs))
    exact ⟨l', hl', htext'.trans (congrArg (c :: ·) htext)⟩

/-- a text has one exact layout -/
theorem Exact.eq_of_text_eq {l l' : Layout} (h : l.Exact) (h' : l'.Exact)
    (htext : l.text = l'.text) : l = l' := by
  have hregions : l.regions = l'.regions := by rw [← h.regions_eq, ← h'.regions_eq, htext]
  obtain ⟨passages, last⟩ := l
  obtain ⟨passages', last'⟩ := l'
  induction passages generalizing passages' with
  | nil =>
    cases passages' with
    | nil => exact congrArg (Layout.mk []) htext
    | cons p' ps' => cases hregions
  | cons p ps ih =>
    cases passages' with
    | nil => cases hregions
    | cons p' ps' =>
      obtain ⟨hgap, hregion, -, hrest⟩ := exact_cons.mp h
      obtain ⟨hgap', hregion', -, hrest'⟩ := exact_cons.mp h'
      rw [text_cons, text_cons] at htext
      obtain ⟨hg, htext⟩ := gap_eq_of_append_eq hgap hgap' (.inr (hregion.opens.append _))
        (.inr (hregion'.opens.append _)) htext
      obtain ⟨hr, hregions⟩ : p.region = p'.region ∧
          Layout.regions ⟨ps, last⟩ = Layout.regions ⟨ps', last'⟩ :=
        List.cons.inj hregions
      rw [hr, List.append_cancel_left_eq] at htext
      have hp : p = p' := by
        obtain ⟨g, r⟩ := p
        obtain ⟨g', r'⟩ := p'
        exact congrArg₂ Passage.mk hg hr
      obtain ⟨rfl, rfl⟩ := Layout.mk.inj (ih hrest ps' hrest' htext hregions)
      rw [hp]

end Layout

end VersionFloor.Source
