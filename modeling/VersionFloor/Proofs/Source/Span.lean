import VersionFloor.Proofs.Source.Layout
import VersionFloor.Proofs.Text.Utf8

/-!
# Source: regions by their places in the bytes

The tags are looked for in the lower case of the text, each behind the end of the one before, and
the text is cut where they stand: always between two characters, and the pieces are the regions
(`regions_exact`).
-/

namespace VersionFloor.Source

open Text

/-- the first place where a mark stands -/
def firstAt? (mark : Bytes) : Bytes → Option Nat
  | [] => none
  | b :: s => if mark.isPrefixOf (b :: s) then some 0 else (firstAt? mark s).map (· + 1)

theorem firstAt?_le {mark s : Bytes} {n : Nat} (h : firstAt? mark s = some n) :
    n + mark.length ≤ s.length := by
  induction s generalizing n with
  | nil => cases h
  | cons b s ih =>
    rw [firstAt?] at h
    split at h
    · rename_i hp
      cases h
      rw [Nat.zero_add]
      exact (List.isPrefixOf_iff_prefix.mp hp).length_le
    · obtain ⟨m, hm, rfl⟩ := Option.map_eq_some_iff.mp h
      have hle := ih hm
      rw [List.length_cons]
      omega

/-- the lower case of ASCII letters -/
def lowered (s : String) : String := String.ofList (s.toList.map asciiLower)

/-- from one place in the bytes of a text to another -/
structure Span where
  start : Nat
  stop : Nat
  deriving DecidableEq, Repr

def Span.slice (p : Span) (bytes : Bytes) : Bytes := (bytes.drop p.start).take (p.stop - p.start)

/-- the bytes of a region up to its end, from what follows the opening tag -/
def bodyLength (rest : Bytes) : Nat :=
  match firstAt? (encodeChars closeTag) rest with
  | some close => close + closeTag.length
  | none => rest.length

/-- the spans in the rest of a text, which starts at `offset` -/
def spansFrom (offset : Nat) (rest : Bytes) : List Span :=
  match _h : firstAt? (encodeChars openTag) rest with
  | none => []
  | some found =>
    let body := rest.drop (found + openTag.length)
    let stop := offset + found + openTag.length + bodyLength body
    ⟨offset + found, stop⟩ :: spansFrom stop (body.drop (bodyLength body))
termination_by rest.length
decreasing_by
  have hle := firstAt?_le _h
  have hopen : (encodeChars openTag).length = 5 := by decide
  have hfive : openTag.length = 5 := by decide
  simp only [List.length_drop]
  omega

def spans (s : String) : List Span := spansFrom 0 (encode (lowered s))

/-! ### marks in the bytes of a text -/

theorem firstAt?_append {mark a s : Bytes}
    (h : ∀ b, b ≠ [] → b <:+ a → ¬ mark <+: b ++ s) :
    firstAt? mark (a ++ s) = (firstAt? mark s).map (· + a.length) := by
  induction a with
  | nil => exact Option.map_id'.symm
  | cons b a ih =>
    have hhere : ¬ mark.isPrefixOf (b :: (a ++ s)) = true := fun hp =>
      h (b :: a) (List.cons_ne_nil b a) List.suffix_rfl (List.isPrefixOf_iff_prefix.mp hp)
    rw [List.cons_append, firstAt?, if_neg hhere,
      ih fun t ht hsuffix => h t ht (hsuffix.trans (List.suffix_cons b a)), Option.map_map]
    rfl

section Marks

variable {mark : List Char} (hne : mark ≠ []) (hmark : ∀ c ∈ mark, isAscii c = true)
include hne hmark

/-- an ASCII mark that starts nowhere in some characters starts nowhere in their bytes -/
theorem firstAt?_encodeChars_append {g s : List Char}
    (h : ∀ b, b ≠ [] → b <:+ g → ¬ mark <+: b ++ s) :
    firstAt? (encodeChars mark) (encodeChars (g ++ s)) =
      (firstAt? (encodeChars mark) (encodeChars s)).map (· + (encodeChars g).length) := by
  induction g with
  | nil => exact Option.map_id'.symm
  | cons c g ih =>
    have hchar : ∀ b, b ≠ [] → b <:+ String.utf8EncodeChar c →
        ¬ encodeChars mark <+: b ++ encodeChars (g ++ s) := by
      intro b hb hsuffix hp
      cases hc : isAscii c with
      | true =>
        rw [utf8EncodeChar_of_isAscii hc] at hsuffix
        rcases List.suffix_cons_iff.mp hsuffix with rfl | hnil
        · rw [← utf8EncodeChar_of_isAscii hc, ← encodeChars_cons,
            encodeChars_prefix_iff hmark] at hp
          exact h (c :: g) (List.cons_ne_nil c g) List.suffix_rfl hp
        · exact hb (List.suffix_nil.mp hnil)
      | false =>
        obtain ⟨x, xs, rfl⟩ := List.exists_cons_of_ne_nil hb
        obtain ⟨m, mark, rfl⟩ := List.exists_cons_of_ne_nil hne
        have hx : 0x80 ≤ x := le_of_mem_utf8EncodeChar hc (hsuffix.mem List.mem_cons_self)
        exact encodeChars_not_below (List.forall_mem_cons.mp hmark).1 hx _ _ hp
    rw [List.cons_append, encodeChars_cons c, firstAt?_append hchar,
      ih fun b hb hsuffix => h b hb (hsuffix.trans (List.suffix_cons c g)), Option.map_map,
      encodeChars_cons c, List.length_append]
    congr 1
    funext n
    show n + (encodeChars g).length + (String.utf8EncodeChar c).length = _
    omega

/-- the same in the lower case of a text, at the places of the text itself -/
theorem firstAt?_lower_append {g s : List Char}
    (h : ∀ b, b ≠ [] → b <:+ g → ¬ mark <+: (b ++ s).map asciiLower) :
    firstAt? (encodeChars mark) (encodeChars ((g ++ s).map asciiLower)) =
      (firstAt? (encodeChars mark) (encodeChars (s.map asciiLower))).map
        (· + (encodeChars g).length) := by
  rw [List.map_append, ← length_encodeChars_map_asciiLower g]
  refine firstAt?_encodeChars_append hne hmark fun b hb hsuffix hp => ?_
  obtain ⟨front, hfront⟩ := hsuffix
  obtain ⟨g₁, g₂, rfl, rfl, rfl⟩ := List.map_eq_append_iff.mp hfront.symm
  rw [← List.map_append] at hp
  exact h g₂ (fun h => hb (by rw [h]; rfl)) (List.suffix_append g₁ g₂) hp

theorem firstAt?_at_start {s : List Char} (h : mark <+: s) :
    firstAt? (encodeChars mark) (encodeChars s) = some 0 := by
  have hp := List.isPrefixOf_iff_prefix.mpr ((encodeChars_prefix_iff hmark s).mpr h)
  obtain ⟨t, rfl⟩ := h
  obtain ⟨m, mark, rfl⟩ := List.exists_cons_of_ne_nil hne
  obtain ⟨b, bs, hbytes⟩ := List.exists_cons_of_ne_nil (String.utf8EncodeChar_ne_nil (c := m))
  rw [List.cons_append, encodeChars_cons _ (mark ++ t), hbytes, List.cons_append] at hp ⊢
  rw [firstAt?, if_pos hp]

end Marks

/-! ### tags in the lower case of a text -/

theorem isAscii_openTag : ∀ c ∈ openTag, isAscii c = true :=
  List.all_eq_true.mp (by decide)

theorem isAscii_closeTag : ∀ c ∈ closeTag, isAscii c = true :=
  List.all_eq_true.mp (by decide)

/-- no place in a gap is the first place of an opening tag -/
theorem firstAt?_gap {g s : List Char} (hg : ¬ HoldsTag g) (hs : s = [] ∨ StartsWithTag s) :
    firstAt? (encodeChars openTag) (encodeChars ((g ++ s).map asciiLower)) =
      (firstAt? (encodeChars openTag) (encodeChars (s.map asciiLower))).map
        (· + (encodeChars g).length) := by
  refine firstAt?_lower_append (by decide) isAscii_openTag fun b hb hsuffix hp => hg ?_
  obtain ⟨front, rfl⟩ := hsuffix
  exact (holdsTag_of_startsWithTag_append hb hs hp).append_left front

theorem firstAt?_tag {s : List Char} (h : StartsWithTag s) :
    firstAt? (encodeChars openTag) (encodeChars (s.map asciiLower)) = some 0 :=
  firstAt?_at_start (by decide) isAscii_openTag h

/-- a closing tag has no letters, so lower case does not make one -/
theorem closeTag_startsWith_map_iff (s : List Char) :
    closeTag <+: s.map asciiLower ↔ closeTag <+: s := by
  have hsign {c d : Char} (hd : d ∈ closeTag) (h : d = asciiLower c) : d = c := by
    cases hc : isAscii c with
    | true =>
      have hall : closeTag.all (fun d => (d != asciiLower c) || d == c) = true :=
        of_isAscii (p := fun c => closeTag.all fun d => (d != asciiLower c) || d == c)
          (by decide +kernel) hc
      have hdc := List.all_eq_true.mp hall d hd
      rw [← h, bne_self_eq_false, Bool.false_or] at hdc
      exact beq_iff_eq.mp hdc
    | false => rw [h, asciiLower_of_not_isAscii hc]
  match s with
  | [] => exact Iff.rfl
  | [c] => simp [closeTag]
  | c :: d :: s =>
    simp only [closeTag, List.map_cons, List.cons_prefix_cons, List.nil_prefix, and_true]
    constructor
    · rintro ⟨hc, hd⟩
      exact ⟨hsign (by decide) hc, hsign (by decide) hd⟩
    · rintro ⟨rfl, rfl⟩
      exact ⟨by decide, by decide⟩

theorem bodyLength_of_closed {body : List Char}
    (hcloses : ∀ before behind, body = before ++ (closeTag ++ behind) → behind = [])
    (hclosed : closeTag <:+: body) (rest : List Char) :
    bodyLength (encodeChars ((body ++ rest).map asciiLower)) = (encodeChars body).length := by
  obtain ⟨front, behind, hbody⟩ := hclosed
  rw [List.append_assoc] at hbody
  obtain rfl := hcloses front behind hbody.symm
  rw [List.append_nil] at hbody
  subst hbody
  -- an earlier closing tag would leave something of the body behind it
  have hfree : ∀ b, b ≠ [] → b <:+ front →
      ¬ closeTag <+: (b ++ (closeTag ++ rest)).map asciiLower := by
    rintro b hb ⟨front', rfl⟩ hp
    rw [closeTag_startsWith_map_iff, ← List.append_assoc] at hp
    have hlen : closeTag.length < (b ++ closeTag).length := by
      have := List.length_pos_of_ne_nil hb
      rw [List.length_append]
      omega
    obtain ⟨more, hmore⟩ := List.prefix_of_prefix_length_le hp (List.prefix_append _ rest)
      (Nat.le_of_lt hlen)
    rw [← hmore, List.length_append] at hlen
    have hnil := hcloses front' more (by rw [List.append_assoc, hmore])
    rw [hnil] at hlen
    exact absurd hlen (by simp)
  have htag : firstAt? (encodeChars closeTag) (encodeChars ((closeTag ++ rest).map asciiLower)) =
      some 0 :=
    firstAt?_at_start (by decide) isAscii_closeTag
      ((closeTag_startsWith_map_iff _).mpr (List.prefix_append _ _))
  have hfirst : firstAt? (encodeChars closeTag)
      (encodeChars ((front ++ (closeTag ++ rest)).map asciiLower)) =
      some (encodeChars front).length := by
    rw [firstAt?_lower_append (by decide) isAscii_closeTag hfree, htag]
    exact congrArg some (Nat.zero_add _)
  rw [bodyLength, List.append_assoc, hfirst, encodeChars_append, List.length_append]
  rfl

theorem bodyLength_of_open {body : List Char} (h : ¬ closeTag <:+: body) :
    bodyLength (encodeChars (body.map asciiLower)) = (encodeChars body).length := by
  have hfree : ∀ b, b ≠ [] → b <:+ body → ¬ closeTag <+: (b ++ []).map asciiLower := by
    rintro b - hsuffix hp
    rw [List.append_nil, closeTag_startsWith_map_iff] at hp
    exact h (hp.isInfix.trans hsuffix.isInfix)
  have hfirst := firstAt?_lower_append (by decide) isAscii_closeTag hfree
  rw [List.append_nil] at hfirst
  rw [bodyLength, hfirst]
  exact length_encodeChars_map_asciiLower body

/-! ### spans and regions -/

/-- between two characters, in the text and in its lower case -/
def IsBoundary (s : String) (n : Nat) : Prop :=
  (⟨n⟩ : String.Pos.Raw).IsValid s ∧ (⟨n⟩ : String.Pos.Raw).IsValid (lowered s)

theorem isBoundary_length {front rest : List Char} {s : String} (h : s.toList = front ++ rest) :
    IsBoundary s (encodeChars front).length := by
  have hvalid (a b : List Char) :
      (⟨(encodeChars a).length⟩ : String.Pos.Raw).IsValid (String.ofList (a ++ b)) := by
    rw [String.Pos.Raw.isValid_iff_exists_append]
    refine ⟨String.ofList a, String.ofList b, String.ofList_append, ?_⟩
    rw [← utf8ByteSize_ofList]
    rfl
  constructor
  · rw [← String.ofList_toList (s := s), h]
    exact hvalid front rest
  · rw [lowered, h, List.map_append, ← length_encodeChars_map_asciiLower front]
    exact hvalid _ _

/-- a span that cuts a region out of a text, all cuts being between characters -/
structure Span.Cuts (p : Span) (s : String) (r : List Char) : Prop where
  start : IsBoundary s p.start
  body : IsBoundary s (p.start + openTag.length)
  stop : IsBoundary s p.stop
  slice : p.slice (encode s) = encode (String.ofList r)

theorem length_encodeChars_tag {tag : List Char} (h : tag.map asciiLower = openTag) :
    (encodeChars tag).length = openTag.length := by
  rw [← length_encodeChars_map_asciiLower, h]
  decide

theorem cuts_region {front tag body rest : List Char} {s : String}
    (htag : tag.map asciiLower = openTag) (hs : s.toList = front ++ (tag ++ (body ++ rest))) :
    Span.Cuts ⟨(encodeChars front).length, (encodeChars (front ++ (tag ++ body))).length⟩ s
      (tag ++ body) where
  start := isBoundary_length hs
  body := by
    have h := isBoundary_length (hs.trans (List.append_assoc front tag _).symm)
    rw [encodeChars_append, List.length_append, length_encodeChars_tag htag] at h
    exact h
  stop := by
    have hfront : s.toList = front ++ (tag ++ body) ++ rest := by
      rw [hs]
      simp only [List.append_assoc]
    exact isBoundary_length hfront
  slice := by
    have hbytes : encode s =
        encodeChars front ++ (encodeChars (tag ++ body) ++ encodeChars rest) := by
      rw [encode_eq, hs, ← encodeChars_append, ← encodeChars_append, List.append_assoc]
    have hlen : (encodeChars (front ++ (tag ++ body))).length - (encodeChars front).length =
        (encodeChars (tag ++ body)).length := by
      rw [encodeChars_append, List.length_append, Nat.add_sub_cancel_left]
    show ((encode s).drop (encodeChars front).length).take
      ((encodeChars (front ++ (tag ++ body))).length - (encodeChars front).length) = _
    rw [hbytes, hlen, List.drop_left, List.take_left, encode_ofList]

theorem spansFrom_of_none {offset : Nat} {rest : Bytes}
    (h : firstAt? (encodeChars openTag) rest = none) : spansFrom offset rest = [] := by
  rw [spansFrom]
  split
  · rfl
  · rename_i h'
    cases h.symm.trans h'

theorem spansFrom_of_some {offset found : Nat} {rest body : Bytes}
    (h : firstAt? (encodeChars openTag) rest = some found)
    (hbody : rest.drop (found + openTag.length) = body) :
    spansFrom offset rest =
      ⟨offset + found, offset + found + openTag.length + bodyLength body⟩ ::
        spansFrom (offset + found + openTag.length + bodyLength body)
          (body.drop (bodyLength body)) := by
  subst hbody
  rw [spansFrom]
  split
  · rename_i h'
    cases h.symm.trans h'
  · rename_i h'
    cases h.symm.trans h'
    rfl

theorem drop_lower (a b : List Char) :
    (encodeChars ((a ++ b).map asciiLower)).drop (encodeChars a).length =
      encodeChars (b.map asciiLower) := by
  rw [← length_encodeChars_map_asciiLower a, List.map_append, encodeChars_append, List.drop_left]

/-- the search finds the gap, the tag and the body of the first region -/
theorem spansFrom_region {front gap tag body rest : List Char} {more : List Span}
    (hgap : ¬ HoldsTag gap) (htag : tag.map asciiLower = openTag)
    (hbody : bodyLength (encodeChars ((body ++ rest).map asciiLower)) = (encodeChars body).length)
    (hmore : spansFrom (encodeChars (front ++ gap ++ (tag ++ body))).length
      (encodeChars (rest.map asciiLower)) = more) :
    spansFrom (encodeChars front).length
        (encodeChars ((gap ++ (tag ++ (body ++ rest))).map asciiLower)) =
      ⟨(encodeChars (front ++ gap)).length, (encodeChars (front ++ gap ++ (tag ++ body))).length⟩ ::
        more := by
  have hstart : StartsWithTag (tag ++ (body ++ rest)) := by
    rw [StartsWithTag, List.map_append, htag]
    exact List.prefix_append _ _
  have hfirst : firstAt? (encodeChars openTag)
      (encodeChars ((gap ++ (tag ++ (body ++ rest))).map asciiLower)) =
      some (encodeChars gap).length := by
    rw [firstAt?_gap hgap (.inr hstart), firstAt?_tag hstart]
    exact congrArg some (Nat.zero_add _)
  have hdrop : (encodeChars ((gap ++ (tag ++ (body ++ rest))).map asciiLower)).drop
      ((encodeChars gap).length + openTag.length) =
        encodeChars ((body ++ rest).map asciiLower) := by
    rw [← length_encodeChars_tag htag, ← List.length_append, ← encodeChars_append,
      ← List.append_assoc gap, drop_lower]
  have hlen : (encodeChars (front ++ gap ++ (tag ++ body))).length =
      (encodeChars front).length + (encodeChars gap).length + openTag.length +
        (encodeChars body).length := by
    rw [← length_encodeChars_tag htag]
    simp only [encodeChars_append, List.length_append, Nat.add_assoc]
  rw [spansFrom_of_some hfirst hdrop, hbody, drop_lower, ← hlen, hmore,
    encodeChars_append front gap, List.length_append]

/-- the search for tags cuts out the regions of a layout -/
theorem spansFrom_cuts {l : Layout} (h : l.Exact) {front : List Char} {s : String}
    (hs : s.toList = front ++ l.text) :
    List.Forall₂ (fun p r => Span.Cuts p s r)
      (spansFrom (encodeChars front).length (encodeChars (l.text.map asciiLower))) l.regions := by
  obtain ⟨passages, last⟩ := l
  induction passages generalizing front with
  | nil =>
    have hnone := firstAt?_gap h.last_gap (.inl rfl)
    rw [List.append_nil] at hnone
    show List.Forall₂ _ (spansFrom _ (encodeChars (last.map asciiLower))) []
    rw [spansFrom_of_none hnone]
    exact .nil
  | cons p ps ih =>
    obtain ⟨hgap, hregion, hend, hrest⟩ := Layout.exact_cons.mp h
    obtain ⟨tag, htag, hr⟩ := hregion.exists_tag
    have hbody : bodyLength (encodeChars
        ((p.region.drop openTag.length ++ Layout.text ⟨ps, last⟩).map asciiLower)) =
        (encodeChars (p.region.drop openTag.length)).length := by
      by_cases hc : IsClosed p.region
      · exact bodyLength_of_closed hregion.closes hc _
      · obtain ⟨rfl, rfl⟩ := hend hc
        show bodyLength (encodeChars ((p.region.drop openTag.length ++ []).map asciiLower)) = _
        rw [List.append_nil]
        exact bodyLength_of_open hc
    have htext : Layout.text ⟨p :: ps, last⟩ =
        p.gap ++ (tag ++ (p.region.drop openTag.length ++ Layout.text ⟨ps, last⟩)) := by
      rw [Layout.text_cons, ← List.append_assoc tag, ← hr]
    rw [htext, ← List.append_assoc front] at hs
    rw [htext, spansFrom_region hgap htag hbody rfl]
    have hcuts := cuts_region htag hs
    rw [← hr] at hcuts ⊢
    refine .cons hcuts (ih hrest ?_)
    rw [hs, ← List.append_assoc tag, ← hr, List.append_assoc (front ++ p.gap)]

/-- **A text is gaps and regions in one way**, and its regions are those that are found, also when
they are looked for in the bytes of its lower case: every cut is between two characters, and each
region is its own only region. -/
theorem regions_exact (s : String) :
    (∃! l : Layout, l.Exact ∧ l.text = s.toList) ∧
      (∀ l : Layout, l.Exact → l.text = s.toList → regions s.toList = l.regions) ∧
      List.Forall₂ (fun p r => Span.Cuts p s r) (spans s) (regions s.toList) ∧
      ∀ r ∈ regions s.toList, regions r = [r] := by
  obtain ⟨l, hl, htext⟩ := Layout.exists_exact s.toList
  have hregions : regions s.toList = l.regions := by rw [← htext, hl.regions_eq]
  refine ⟨⟨l, ⟨hl, htext⟩, ?_⟩, ?_, ?_, ?_⟩
  · rintro l' ⟨hl', htext'⟩
    exact hl'.eq_of_text_eq hl (htext'.trans htext.symm)
  · intro l' hl' htext'
    rw [← htext', hl'.regions_eq]
  · have hcuts := spansFrom_cuts hl (show s.toList = [] ++ l.text from htext.symm)
    rw [htext] at hcuts
    rw [hregions, spans, lowered, encode_ofList]
    exact hcuts
  · intro r hr
    rw [hregions] at hr
    obtain ⟨p, hp, rfl⟩ := List.mem_map.mp hr
    exact (hl.regions p hp).regions_eq

/-- `é<?`, `<?PHP??>`, `ü?>` and `<?php`: marks that begin twice, next to characters of two bytes -/
def crowded : Layout where
  passages := [⟨['é', '<', '?'], ['<', '?', 'P', 'H', 'P', '?', '?', '>']⟩,
    ⟨['ü', '?', '>'], ['<', '?', 'p', 'h', 'p']⟩]
  last := []

theorem regions_exact_crowded :
    crowded.Exact ∧ regions crowded.text = crowded.regions ∧
      regions ['<', '?', 'P', 'H', 'P', '?', '?', '>'] =
        [['<', '?', 'P', 'H', 'P', '?', '?', '>']] := by
  have hexact : crowded.Exact :=
    Layout.exact_cons.mpr ⟨by decide, isRegion_iff.mpr (by decide), fun h => absurd (by decide) h,
      Layout.exact_cons.mpr ⟨by decide, isRegion_iff.mpr (by decide), fun _ => ⟨rfl, rfl⟩,
        Layout.exact_nil (by decide)⟩⟩
  have htext : crowded.text = (String.ofList crowded.text).toList := String.toList_ofList.symm
  obtain ⟨-, hassembled, -, hself⟩ := regions_exact (String.ofList crowded.text)
  have hregions := hassembled crowded hexact htext
  rw [← htext] at hregions hself
  exact ⟨hexact, hregions, hself _ (hregions ▸ List.mem_cons_self)⟩

end VersionFloor.Source
