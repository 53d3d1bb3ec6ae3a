import VersionFloor.Proofs.Source.Layout
import VersionFloor.Proofs.Source.PlainCall

/-!
# Source: where a call comes from

Every site that a scan finds stands in the text as it is written: the keyword of the site in front
of its name, blanks between them, and the arguments behind it (`exists_of_mem_sites`).  So every
call of a text has an occurrence in one of its regions, and the gaps between the regions have no
part in the calls (`calls_occur`).
-/

namespace VersionFloor.Source

open Text

/-! ### a keyword in front -/

/-- the text ends with this keyword, in any case, at the start of a word and with blanks behind -/
def EndsWith (k : Keyword) (s : List Char) : Prop :=
  ∃ front keyword gap, s = front ++ (keyword ++ gap) ∧ front.getLast?.any isWord = false ∧
    keyword.map asciiLower = k.text ∧ gap ≠ [] ∧ ∀ c ∈ gap, isBlank c = true

theorem isLead_iff {k : Keyword} {s : List Char} :
    isLead k s = true ↔ ∃ keyword gap, s = keyword ++ gap ∧ keyword.map asciiLower = k.text ∧
      gap ≠ [] ∧ ∀ c ∈ gap, isBlank c = true := by
  rw [isLead, Bool.and_eq_true, Bool.and_eq_true, Bool.not_eq_true', List.isEmpty_eq_false_iff,
    List.all_eq_true, k.startsSame_iff]
  constructor
  · rintro ⟨⟨hkeyword, hgap⟩, hblank⟩
    exact ⟨_, _, (List.take_append_drop _ _).symm, hkeyword, hgap, hblank⟩
  · rintro ⟨keyword, gap, rfl, hkeyword, hgap, hblank⟩
    have hlen : k.text.length = keyword.length := by rw [← hkeyword, List.length_map]
    rw [hlen, List.take_left, List.drop_left]
    exact ⟨⟨hkeyword, hgap⟩, hblank⟩

/-- the two keywords start with different letters -/
theorem leadOf?_eq_some {k : Keyword} {s : List Char} (h : isLead k s = true) :
    leadOf? s = some k := by
  cases hlead : leadOf? s with
  | none =>
    rw [leadOf?_eq_none hlead] at h
    cases h
  | some k' =>
    obtain ⟨keyword, gap, hs, hkeyword, -, -⟩ := isLead_iff.mp h
    obtain ⟨keyword', gap', hs', hkeyword', -, -⟩ := isLead_iff.mp (isLead_of_leadOf? hlead)
    have hhead (k : Keyword) (more : List Char) : (k.text ++ more).head? = k.text.head? := by
      cases k <;> rfl
    have hsame : k.text.head? = k'.text.head? := by
      rw [← hhead k (gap.map asciiLower), ← hhead k' (gap'.map asciiLower), ← hkeyword,
        ← hkeyword', ← List.map_append, ← List.map_append, ← hs, ← hs']
    cases k <;> cases k' <;> first | rfl | exact absurd hsame (by decide)

theorem keywordAtEnd?_lead {before : Option Char} {c : Char} {s : List Char} {k : Keyword}
    (hword : isWordStart before c = true) (h : isLead k (c :: s) = true) :
    keywordAtEnd? before (c :: s) = some k := by
  rw [keywordAtEnd?, if_pos hword, leadOf?_eq_some h, Option.some_or]

theorem exists_of_keywordAtEnd? {before : Option Char} {s : List Char} {k : Keyword}
    (h : keywordAtEnd? before s = some k) :
    ∃ front keyword gap, s = front ++ (keyword ++ gap) ∧
      (front.getLast?.or before).any isWord = false ∧
      keyword.map asciiLower = k.text ∧ gap ≠ [] ∧ ∀ c ∈ gap, isBlank c = true := by
  induction s generalizing before with
  | nil => cases h
  | cons c s ih =>
    rw [keywordAtEnd?] at h
    rcases Option.or_eq_some_iff.mp h with h | ⟨-, h⟩
    · obtain ⟨hword, hlead⟩ := Option.ite_none_right_eq_some.mp h
      obtain ⟨keyword, gap, hs, hkeyword⟩ := isLead_iff.mp (isLead_of_leadOf? hlead)
      rw [isWordStart, Bool.and_eq_true, Bool.not_eq_true'] at hword
      exact ⟨[], keyword, gap, hs, hword.2, hkeyword⟩
    · obtain ⟨front, keyword, gap, hs, hword, hkeyword⟩ := ih h
      refine ⟨c :: front, keyword, gap, congrArg (c :: ·) hs, ?_, hkeyword⟩
      cases hlast : front.getLast? <;> simpa [List.getLast?_cons, hlast] using hword

theorem keywordAtEnd?_ne_none {k : Keyword} {front keyword gap : List Char} {before : Option Char}
    (hword : (front.getLast?.or before).any isWord = false)
    (hkeyword : keyword.map asciiLower = k.text) (hgap : gap ≠ [])
    (hblank : ∀ c ∈ gap, isBlank c = true) :
    keywordAtEnd? before (front ++ (keyword ++ gap)) ≠ none := by
  induction front generalizing before with
  | nil =>
    cases hs : keyword with
    | nil => cases k <;> cases hs ▸ hkeyword
    | cons c more =>
      have hc : isWord c = true :=
        isWord_of_isAsciiLetter (isAsciiLetter_of_keyword hkeyword (hs ▸ List.mem_cons_self))
      have hstart : isWordStart before c = true := by
        rw [isWordStart, hc, show before.any isWord = false from hword]
        rfl
      have hlead : isLead k (c :: (more ++ gap)) = true :=
        isLead_iff.mpr ⟨keyword, gap, by rw [hs]; rfl, hkeyword, hgap, hblank⟩
      rw [List.nil_append, List.cons_append, keywordAtEnd?_lead hstart hlead]
      exact Option.some_ne_none k
  | cons c front ih =>
    intro hnone
    rw [List.cons_append, keywordAtEnd?, Option.or_eq_none_iff] at hnone
    refine ih ?_ hnone.2
    cases hlast : front.getLast? <;> simpa [List.getLast?_cons, hlast] using hword

/-- at the start of a text, the keyword found at its end is the one that stands there -/
theorem endsWith_of_keywordAtEnd? {s : List Char} {k : Keyword}
    (h : keywordAtEnd? none s = some k) : EndsWith k s := by
  obtain ⟨front, keyword, gap, hs, hword, hkeyword⟩ := exists_of_keywordAtEnd? h
  rw [Option.or_none] at hword
  exact ⟨front, keyword, gap, hs, hword, hkeyword⟩

theorem not_endsWith_of_keywordAtEnd? {s : List Char} (h : keywordAtEnd? none s = none)
    (k : Keyword) : ¬ EndsWith k s := by
  rintro ⟨front, keyword, gap, rfl, hword, hkeyword, hgap, hblank⟩
  rw [← Option.or_none (o := front.getLast?)] at hword
  exact keywordAtEnd?_ne_none hword hkeyword hgap hblank h

/-! ### one place of the text -/

theorem exists_of_afterArguments? {s after : List Char} (h : afterArguments? s = some after) :
    ∃ a : Arguments, s = a.text ++ after := by
  rw [afterArguments?_eq] at h
  obtain ⟨r, hopen, hend⟩ := Option.bind_eq_some_iff.mp h
  have hclose : r.dropWhile (· != ')') ≠ [] := by
    intro hnil
    rw [hnil] at hend
    cases hend
  have hparen : r.dropWhile (· != ')') = ')' :: (r.dropWhile (· != ')')).drop 1 := by
    obtain ⟨c, more, hcons⟩ := List.exists_cons_of_ne_nil hclose
    have hc : (c != ')') = false := by
      have hhead := List.head?_dropWhile_not (· != ')') r
      rw [hcons] at hhead
      simpa using hhead
    rw [hcons, bne_eq_false_iff_eq.mp hc]
    rfl
  have hspace (t : List Char) : ∀ c ∈ t.takeWhile isBlank, isBlank c = true :=
    fun c hc => List.mem_takeWhile_imp hc
  have hinside : ')' ∉ r.takeWhile (· != ')') := fun hmem =>
    absurd (List.mem_takeWhile_imp hmem) (by decide)
  refine ⟨⟨⟨_, hspace s⟩, _, hinside, ⟨_, hspace ((r.dropWhile (· != ')')).drop 1)⟩⟩, ?_⟩
  rw [Arguments.text_append, Arguments.opened, ← behind?_eq_some hend,
    List.takeWhile_append_dropWhile, ← hparen, List.takeWhile_append_dropWhile,
    ← behind?_eq_some hopen, List.takeWhile_append_dropWhile]

theorem Arguments.head?_text (a : Arguments) (rest : List Char) :
    (a.text ++ rest).head?.any isNameChar = false := by
  rw [a.text_append]
  cases hb : a.before.chars with
  | nil => exact (by decide : isNameChar '(' = false)
  | cons b bs => exact isNameChar_of_isBlank (a.before.blank b (hb ▸ List.mem_cons_self))

/-- the text is the name of the site with arguments, and the rest -/
def Site.Opens (site : Site) (s rest : List Char) : Prop :=
  site.name ≠ [] ∧ (∀ c ∈ site.name, isNameChar c = true) ∧
    ∃ a : Arguments, s = site.name ++ (a.text ++ rest)

theorem opens_of_takeNamed {k : Option Keyword} {s after : List Char} {site : Site}
    (h : takeNamed k s = some (site, after)) : site.keyword = k ∧ site.Opens s after := by
  rw [takeNamed] at h
  split at h
  · cases h
  · rename_i name hne
    obtain ⟨rest, harguments, he⟩ := Option.map_eq_some_iff.mp h
    cases he
    obtain ⟨a, ha⟩ := exists_of_afterArguments? harguments
    refine ⟨rfl, hne, fun c hc => List.mem_takeWhile_imp hc, a, ?_⟩
    rw [← ha, List.takeWhile_append_dropWhile]

theorem opens_of_takeAfter {k : Keyword} {s after : List Char} {site : Site}
    (h : takeAfter k s = some (site, after)) :
    ∃ lead t, s = lead ++ t ∧ isLead k lead = true ∧ site.keyword = some k ∧
      site.Opens t after := by
  rw [takeAfter] at h
  split at h
  · rename_i hstart
    split at h
    · rename_i b rest hdrop
      split at h
      · rename_i hb
        obtain ⟨hkeyword, hopens⟩ := opens_of_takeNamed h
        have hblank : ∀ c ∈ b :: rest.takeWhile isBlank, isBlank c = true :=
          List.forall_mem_cons.mpr ⟨hb, fun c hc => List.mem_takeWhile_imp hc⟩
        refine ⟨s.take k.text.length ++ b :: rest.takeWhile isBlank, _, ?_,
          isLead_iff.mpr ⟨_, _, rfl, k.startsSame_iff.mp hstart, List.cons_ne_nil _ _, hblank⟩,
          hkeyword, hopens⟩
        rw [List.append_assoc, List.cons_append, List.takeWhile_append_dropWhile, ← hdrop,
          List.take_append_drop]
      · cases h
    · cases h
  · cases h

/-- a keyword with blanks ends in a blank -/
theorem getLast?_of_isLead {k : Keyword} {s : List Char} (h : isLead k s = true) :
    s.getLast?.any isNameChar = false := by
  obtain ⟨keyword, gap, rfl, -, hgap, hblank⟩ := isLead_iff.mp h
  rw [List.getLast?_append_of_ne_nil _ hgap, List.getLast?_eq_getLast_of_ne_nil hgap]
  exact isNameChar_of_isBlank (hblank _ (List.getLast_mem hgap))

/-- **A site that is found stands there**: the keyword and its blanks, and then the name with the
arguments. -/
theorem opens_of_takeSite {before : Option Char} {c : Char} {rest after : List Char} {site : Site}
    (h : takeSite before c rest = some (site, after)) :
    ∃ lead t, c :: rest = lead ++ t ∧ lead.getLast?.any isNameChar = false ∧
      keywordAtEnd? before lead = site.keyword ∧ site.Opens t after := by
  have hmarked {k : Keyword} (hword : isWordStart before c = true)
      (hafter : takeAfter k (c :: rest) = some (site, after)) :
      ∃ lead t, c :: rest = lead ++ t ∧ lead.getLast?.any isNameChar = false ∧
        keywordAtEnd? before lead = site.keyword ∧ site.Opens t after := by
    obtain ⟨lead, t, hs, hlead, hkeyword, hopens⟩ := opens_of_takeAfter hafter
    refine ⟨lead, t, hs, getLast?_of_isLead hlead, ?_, hopens⟩
    cases lead with
    | nil => cases k <;> cases hlead
    | cons d lead =>
      obtain ⟨rfl, -⟩ := List.cons.inj hs
      rw [keywordAtEnd?_lead hword hlead, hkeyword]
  unfold takeSite at h
  rcases Option.or_eq_some_iff.mp h with h | ⟨-, h⟩
  · obtain ⟨hword, h⟩ := Option.ite_none_right_eq_some.mp h
    rcases Option.or_eq_some_iff.mp h with h | ⟨-, h⟩
    · exact hmarked hword h
    · exact hmarked hword h
  · obtain ⟨hkeyword, hopens⟩ := opens_of_takeNamed h
    exact ⟨[], c :: rest, rfl, rfl, hkeyword.symm, hopens⟩

/-! ### the whole text -/

/-- **Every site of a scan stands in the text**, with the keyword that is in front of it and no
part of a longer name. -/
theorem exists_of_mem_sites {before : Option Char} {s : List Char} {site : Site}
    (h : site ∈ sites before s) :
    ∃ front t after, s = front ++ t ∧ front.getLast?.any isNameChar = false ∧
      keywordAtEnd? before front = site.keyword ∧ site.Opens t after := by
  fun_induction sites before s with
  | case1 before => cases h
  | case2 before c s found after htake ih =>
    rcases List.mem_cons.mp h with rfl | h
    · obtain ⟨lead, t, hs, hlast, hkeyword, hopens⟩ := opens_of_takeSite htake
      exact ⟨lead, t, after, hs, hlast, hkeyword, hopens⟩
    · obtain ⟨front, t, after', hafter, hlast, hkeyword, hopens⟩ := ih h
      obtain ⟨u, hu⟩ := takeSite_suffix htake
      refine ⟨u ++ ';' :: front, t, after', ?_, ?_, ?_, hopens⟩
      · rw [← hu, hafter, List.append_assoc, List.cons_append]
      · rw [List.getLast?_append_of_ne_nil _ (List.cons_ne_nil _ _), List.getLast?_cons]
        cases hfront : front.getLast? with
        | none => decide
        | some d => rwa [hfront] at hlast
      · rw [keywordAtEnd?_append, hkeyword]
  | case3 before c s htake ih =>
    obtain ⟨front, t, after, hs, hlast, hkeyword, hopens⟩ := ih h
    obtain ⟨hne, hname, a, ht⟩ := hopens
    refine ⟨c :: front, t, after, congrArg (c :: ·) hs, ?_, ?_, hne, hname, a, ht⟩
    · rw [List.getLast?_cons]
      cases hfront : front.getLast? with
      | some d => rwa [hfront] at hlast
      | none =>
        -- a name that starts sooner would have been found sooner
        cases hc : isNameChar c with
        | false => exact hc
        | true =>
          have hnil : front = [] := List.getLast?_eq_none_iff.mp hfront
          rw [hs, hnil, List.nil_append, ht,
            takeSite_name (List.forall_mem_cons.mpr ⟨hc, hname⟩)] at htake
          cases htake
    · rw [keywordAtEnd?, hkeyword]
      cases hlead : if isWordStart before c then leadOf? (c :: front) else none with
      | none => rfl
      | some k =>
        -- and so would the name with a keyword
        obtain ⟨hword, hlead⟩ := Option.ite_none_right_eq_some.mp hlead
        rw [hs, ht, takeSite_lead hword (isLead_of_leadOf? hlead) hne hname] at htake
        cases htake

/-- a name with arguments behind it that is no part of a longer name -/
structure Occurrence (r : List Char) where
  front : List Char
  name : List Char
  arguments : Arguments
  rest : List Char
  text_eq : r = front ++ (name ++ (arguments.text ++ rest))
  ne_nil : name ≠ []
  word : ∀ c ∈ name, isNameChar c = true
  starts : front.getLast?.any isNameChar = false
  ends : (arguments.text ++ rest).head?.any isNameChar = false

namespace Occurrence

variable {r : List Char} (o : Occurrence r)

/-- the name without its namespace -/
def ownName : List Char := afterLast '\\' o.name

/-- the call is what the name says, with the keyword in front of it -/
def Gives : Call → Prop
  | .construction owner =>
    EndsWith .new o.front ∧ owner.toList = trimBy (· == ':') o.ownName
  | .method owner name =>
    (∀ k, ¬ EndsWith k o.front) ∧ o.ownName = owner.toList ++ (colons ++ name.toList) ∧
      ¬ colons <:+: owner.toList ++ [':']
  | .free name =>
    (∀ k, ¬ EndsWith k o.front) ∧ o.ownName = name.toList ∧ ¬ colons <:+: o.ownName

theorem gives_of_plainCallOf? (hkeyword : keywordAtEnd? none o.front = none) {call : Call}
    (h : plainCallOf? o.ownName = some call) : o.Gives call := by
  have hcolons : colons ≠ [] := List.cons_ne_nil _ _
  rw [plainCallOf?] at h
  split at h
  · rename_i owner name hsplit
    split at h
    · cases h
    · cases h
      obtain ⟨hname, hfirst⟩ := splitFirst_eq_some hcolons hsplit
      refine ⟨not_endsWith_of_keywordAtEnd? hkeyword, ?_, ?_⟩
      · rwa [String.toList_ofList, String.toList_ofList]
      · rwa [String.toList_ofList]
  · rename_i hsplit
    split at h
    · cases h
    · cases h
      exact ⟨not_endsWith_of_keywordAtEnd? hkeyword, String.toList_ofList.symm,
        not_infix_of_splitFirst hsplit⟩

theorem gives_of_call? {call : Call}
    (h : Site.call? ⟨keywordAtEnd? none o.front, o.name⟩ = some call) : o.Gives call := by
  rw [Site.call?] at h
  split at h
  · cases h
  · rename_i hkeyword
    rw [constructionOf?] at h
    split at h
    · cases h
    · cases h
      exact ⟨endsWith_of_keywordAtEnd? hkeyword, String.toList_ofList⟩
  · rename_i hkeyword
    exact o.gives_of_plainCallOf? hkeyword h

end Occurrence

theorem exists_occurrence {s : List Char} {call : Call} (h : call ∈ calls s) :
    ∃ r ∈ regions s, ∃ o : Occurrence r, o.Gives call := by
  rw [mem_calls, callsAsWritten, List.mem_flatMap] at h
  obtain ⟨r, hr, h⟩ := h
  obtain ⟨site, hsite, hcall⟩ := List.mem_filterMap.mp h
  obtain ⟨front, t, after, htext, hlast, hkeyword, hne, hname, a, rfl⟩ := exists_of_mem_sites hsite
  refine ⟨r, hr, ⟨front, site.name, a, after, htext, hne, hname, hlast, a.head?_text after⟩, ?_⟩
  refine Occurrence.gives_of_call? _ ?_
  rwa [hkeyword]

/-- **Every call of a text has an occurrence** in one of the regions of the text, and the gaps
between the regions have no part in the calls. -/
theorem calls_occur (s : List Char) :
    ∃ l : Layout, l.Exact ∧ l.text = s ∧ l.regions = regions s ∧
      (∀ call ∈ calls s, ∃ r ∈ regions s, ∃ o : Occurrence r, o.Gives call) ∧
      ∀ l' : Layout, l'.Exact → l'.regions = l.regions → calls l'.text = calls s := by
  obtain ⟨l, hl, rfl⟩ := Layout.exists_exact s
  refine ⟨l, hl, rfl, hl.regions_eq.symm, fun call => exists_occurrence, ?_⟩
  intro l' hl' hregions
  have hsame : regions l'.text = regions l.text := by rw [hl'.regions_eq, hl.regions_eq, hregions]
  rw [calls, calls, callsAsWritten, callsAsWritten, hsame]

/-- a keyword inside a word is none, and what stands outside the tags is not read -/
example :
    callsAsWritten "new A(); <?php renew B(); NEW\\n\\C :: d(); ?> e(); <?PHP new\tF();".toList =
      [.free "B", .free "d", .construction "F"] := by
  decide +kernel

end VersionFloor.Source
