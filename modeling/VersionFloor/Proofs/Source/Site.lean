import VersionFloor.Proofs.Text.Classes
import VersionFloor.Source.Site

/-!
# Source: how a scan for sites goes on

`takeSite` decides at every place whether a site starts there, and of the text in front only a word
character counts (`sites_eq_sites_none`).
-/

namespace VersionFloor.Source

open Text

/-! ### characters of names -/

theorem isNameChar_of_isBlank {c : Char} (h : isBlank c = true) : isNameChar c = false :=
  of_isBlank (by decide +kernel) h

theorem isBlank_of_isNameChar {c : Char} (h : isNameChar c = true) : isBlank c = false := by
  cases hb : isBlank c with
  | false => rfl
  | true => rw [isNameChar_of_isBlank hb] at h; cases h

theorem isNameChar_of_isAsciiWord {c : Char} (h : isAsciiWord c = true) : isNameChar c = true := by
  rw [isNameChar, h, Bool.true_or, Bool.true_or]

/-! ### where no site starts -/

theorem takeNamed_eq_none_of_head {c : Char} (h : isNameChar c = false) (k : Option Keyword)
    (s : List Char) : takeNamed k (c :: s) = none := by
  have htake : (c :: s).takeWhile isNameChar = [] :=
    List.takeWhile_cons_of_neg (by rw [h]; decide)
  rw [takeNamed, htake]

/-- a name without arguments -/
theorem takeNamed_eq_none_of_behind {name rest : List Char}
    (hname : ∀ c ∈ name, isNameChar c = true) (hrest : rest.dropWhile isNameChar = rest)
    (harguments : afterArguments? rest = none) (k : Option Keyword) :
    takeNamed k (name ++ rest) = none := by
  rw [takeNamed, List.dropWhile_append_of_pos hname, hrest, harguments]
  split <;> rfl

/-! ### keywords -/

/-- keywords are written in lower case -/
theorem Keyword.startsSame_iff (k : Keyword) {s : List Char} :
    startsSame k.text s = true ↔ (s.take k.text.length).map asciiLower = k.text := by
  have hlower : k.text.map asciiLower = k.text := by cases k <;> decide
  rw [startsSame, beq_iff_eq, hlower]

theorem isAsciiLetter_of_keyword {k : Keyword} {keyword : List Char}
    (h : keyword.map asciiLower = k.text) {c : Char} (hc : c ∈ keyword) :
    isAsciiLetter c = true := by
  have hmem : asciiLower c ∈ k.text := h ▸ List.mem_map_of_mem hc
  have hall : k.text.all isAsciiLetter = true := by cases k <;> decide
  exact isAsciiLetter_of_asciiLower (List.all_eq_true.mp hall _ hmem)

theorem isAsciiLetter_of_startsSame {k : Keyword} {s : List Char}
    (h : startsSame k.text s = true) : ∀ c ∈ s.take k.text.length, isAsciiLetter c = true :=
  fun _ hc => isAsciiLetter_of_keyword (k.startsSame_iff.mp h) hc

/-- a site with a keyword has its name where the keyword and the blanks end -/
theorem takeAfter_eq_some {k : Keyword} {s after : List Char} {site : Site}
    (h : takeAfter k s = some (site, after)) :
    takeNamed (some k) ((s.dropWhile isNameChar).dropWhile isBlank) = some (site, after) := by
  unfold takeAfter at h
  split at h
  · rename_i hstart
    split at h
    · rename_i b rest hdrop
      split at h
      · rename_i hb
        have hword : ∀ c ∈ s.take k.text.length, isNameChar c = true := fun c hc =>
          isNameChar_of_isAsciiWord
            (isAsciiWord_of_isAsciiLetter (isAsciiLetter_of_startsSame hstart c hc))
        have hbehind : s.dropWhile isNameChar = b :: rest := by
          rw [← List.take_append_drop k.text.length s, List.dropWhile_append_of_pos hword, hdrop]
          exact List.dropWhile_cons_of_neg (by rw [isNameChar_of_isBlank hb]; decide)
        rw [hbehind, List.dropWhile_cons_of_pos hb]
        exact h
      · cases h
    · cases h
  · cases h

/-- where no keyword stands, a site starts with its name -/
theorem takeSite_of_unmarked {c : Char} {rest : List Char}
    (h : ∀ k : Keyword, startsSame k.text (c :: rest) = false) (before : Option Char) :
    takeSite before c rest = takeNamed none (c :: rest) := by
  have hafter : ∀ k, takeAfter k (c :: rest) = none := fun k => by
    rw [takeAfter, if_neg (by rw [h k]; decide)]
  rw [takeSite, hafter, hafter]
  split <;> rfl

/-! ### one place after the other -/

theorem sites_of_some {before : Option Char} {c : Char} {rest after : List Char} {site : Site}
    (h : takeSite before c rest = some (site, after)) :
    sites before (c :: rest) = site :: sites (some ';') after := by
  rw [sites]
  split
  · rename_i h'
    cases h.symm.trans h'
    rfl
  · rename_i h'
    cases h.symm.trans h'

theorem sites_of_none {before : Option Char} {c : Char} {rest : List Char}
    (h : takeSite before c rest = none) : sites before (c :: rest) = sites (some c) rest := by
  rw [sites]
  split
  · rename_i h'
    cases h.symm.trans h'
  · rfl

/-- in front of the text only a word character counts -/
theorem sites_eq_sites_none {before : Option Char} (h : before.any isWord = false)
    (s : List Char) : sites before s = sites none s := by
  cases s with
  | nil => rw [sites, sites]
  | cons c rest =>
    have hstart : isWordStart before c = isWordStart none c := by rw [isWordStart, h]; rfl
    have htake : takeSite before c rest = takeSite none c rest := by
      rw [takeSite, takeSite, hstart]
    cases hs : takeSite none c rest with
    | some found =>
      obtain ⟨site, after⟩ := found
      rw [sites_of_some hs, sites_of_some (htake.trans hs)]
    | none => rw [sites_of_none hs, sites_of_none (htake.trans hs)]

/-- behind a blank a text stands as if at its start -/
theorem sites_blank (before : Option Char) {b : Char} (hb : isBlank b = true) (rest : List Char) :
    sites before (b :: rest) = sites none rest := by
  have hword : (some b).any isWord = false := isWord_of_isBlank hb
  have htake : takeSite before b rest = none := by
    rw [takeSite, isWordStart, isWord_of_isBlank hb,
      takeNamed_eq_none_of_head (isNameChar_of_isBlank hb)]
    rfl
  rw [sites_of_none htake, sites_eq_sites_none hword]

theorem sites_blanks {space : List Char} (h : ∀ c ∈ space, isBlank c = true)
    (rest : List Char) : sites none (space ++ rest) = sites none rest := by
  induction space with
  | nil => rfl
  | cons b space ih =>
    rw [List.cons_append, sites_blank none (h b List.mem_cons_self)]
    exact ih fun c hc => h c (List.mem_cons_of_mem _ hc)

end VersionFloor.Source
