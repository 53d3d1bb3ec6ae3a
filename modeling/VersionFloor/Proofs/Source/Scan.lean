import VersionFloor.Proofs.Source.Rendering
import VersionFloor.Proofs.Source.Site

/-!
# Source: scanning what was written

At every statement the scan finds the site of the statement and goes on behind its semicolon; blanks
and the opening tag hold no site (`sites_text`).
-/

namespace VersionFloor.Source

open Text

/-! ### arguments -/

namespace Arguments

variable (a : Arguments) (rest : List Char)

/-- the arguments from the parenthesis on -/
def opened : List Char := '(' :: (a.inside ++ ')' :: (a.behind.chars ++ ';' :: rest))

theorem text_append : a.text ++ rest = a.before.chars ++ a.opened rest := by
  simp only [text, opened, List.append_assoc, List.cons_append, List.nil_append]

theorem dropWhile_isBlank : (a.text ++ rest).dropWhile isBlank = a.opened rest := by
  rw [text_append, List.dropWhile_append_of_pos a.before.blank]
  exact List.dropWhile_cons_of_neg (by decide)

/-- no name goes on into the arguments -/
theorem dropWhile_isNameChar : (a.text ++ rest).dropWhile isNameChar = a.text ++ rest := by
  rw [text_append]
  cases h : a.before.chars with
  | nil => exact List.dropWhile_cons_of_neg (by decide)
  | cons b bs =>
    have hb : isBlank b = true := a.before.blank b (h ▸ List.mem_cons_self)
    exact List.dropWhile_cons_of_neg (by rw [isNameChar_of_isBlank hb]; decide)

theorem takeWhile_isNameChar : (a.text ++ rest).takeWhile isNameChar = [] := by
  have h := List.takeWhile_append_dropWhile (p := isNameChar) (l := a.text ++ rest)
  rw [dropWhile_isNameChar] at h
  exact List.append_cancel_right (h.trans (List.nil_append _).symm)

theorem afterArguments?_text : afterArguments? (a.text ++ rest) = some rest := by
  have hinside : ∀ c ∈ a.inside, (c != ')') = true := fun c hc =>
    bne_iff_ne.mpr fun he => a.closed (he ▸ hc)
  have hclose : (a.inside ++ ')' :: (a.behind.chars ++ ';' :: rest)).dropWhile (· != ')') =
      ')' :: (a.behind.chars ++ ';' :: rest) := by
    rw [List.dropWhile_append_of_pos hinside]
    exact List.dropWhile_cons_of_neg (by decide)
  have hend : (a.behind.chars ++ ';' :: rest).dropWhile isBlank = ';' :: rest := by
    rw [List.dropWhile_append_of_pos a.behind.blank]
    exact List.dropWhile_cons_of_neg (by decide)
  rw [afterArguments?, dropWhile_isBlank, opened]
  simp only [hclose, List.drop_succ_cons, List.drop_zero, hend]

end Arguments

/-- no arguments start where neither a blank nor a parenthesis stands -/
theorem afterArguments?_of_head {c : Char} (hblank : isBlank c = false) (hopen : c ≠ '(')
    (gap : Space) (more : List Char) : afterArguments? (gap.chars ++ c :: more) = none := by
  rw [afterArguments?, List.dropWhile_append_of_pos gap.blank,
    List.dropWhile_cons_of_neg (by rw [hblank]; decide)]
  split
  · rename_i h
    exact absurd (List.cons.inj h).1 hopen
  · rfl

/-! ### names and keywords -/

theorem takeNamed_text (k : Option Keyword) {name : List Char} (hne : name ≠ [])
    (hname : ∀ c ∈ name, isNameChar c = true) (a : Arguments) (rest : List Char) :
    takeNamed k (name ++ (a.text ++ rest)) = some (⟨k, name⟩, rest) := by
  have htake : (name ++ (a.text ++ rest)).takeWhile isNameChar = name := by
    rw [List.takeWhile_append_of_pos hname, a.takeWhile_isNameChar, List.append_nil]
  have hdrop : (name ++ (a.text ++ rest)).dropWhile isNameChar = a.text ++ rest := by
    rw [List.dropWhile_append_of_pos hname, a.dropWhile_isNameChar]
  rw [takeNamed, htake, hdrop, a.afterArguments?_text]
  cases name with
  | nil => exact absurd rfl hne
  | cons c name => rfl

/-- a keyword, blanks and a name with its arguments -/
theorem takeAfter_text {k : Keyword} {keyword gap name : List Char}
    (hk : keyword.map asciiLower = k.text) (hgap : gap ≠ [])
    (hblank : ∀ c ∈ gap, isBlank c = true) (hne : name ≠ [])
    (hname : ∀ c ∈ name, isNameChar c = true) (a : Arguments) (rest : List Char) :
    takeAfter k (keyword ++ (gap ++ (name ++ (a.text ++ rest)))) =
      some (⟨some k, name⟩, rest) := by
  have hlen : k.text.length = keyword.length := by rw [← hk, List.length_map]
  have hstart : startsSame k.text (keyword ++ (gap ++ (name ++ (a.text ++ rest)))) = true := by
    rw [k.startsSame_iff, hlen, List.take_left, hk]
  rw [takeAfter, if_pos hstart, hlen, List.drop_left]
  cases gap with
  | nil => exact absurd rfl hgap
  | cons b bs =>
    have hb : isBlank b = true := hblank b List.mem_cons_self
    have hbs : (bs ++ (name ++ (a.text ++ rest))).dropWhile isBlank =
        name ++ (a.text ++ rest) := by
      rw [List.dropWhile_append_of_pos fun c hc => hblank c (List.mem_cons_of_mem _ hc)]
      cases name with
      | nil => exact absurd rfl hne
      | cons c name =>
        have hc : isBlank c = false := isBlank_of_isNameChar (hname c List.mem_cons_self)
        exact List.dropWhile_cons_of_neg (by rw [hc]; decide)
    show (if isBlank b = true then takeNamed (some k) ((bs ++ _).dropWhile isBlank) else none) = _
    rw [if_pos hb, hbs, takeNamed_text _ hne hname]

/-- a name without a keyword, even one that starts like a keyword -/
theorem takeSite_name {c : Char} {name : List Char} (hname : ∀ d ∈ c :: name, isNameChar d = true)
    (before : Option Char) (a : Arguments) (rest : List Char) :
    takeSite before c (name ++ (a.text ++ rest)) = some (⟨none, c :: name⟩, rest) := by
  have hunmarked : ∀ k, takeAfter k (c :: name ++ (a.text ++ rest)) = none := by
    intro k
    cases h : takeAfter k (c :: name ++ (a.text ++ rest)) with
    | none => rfl
    | some found =>
      -- behind the name and the blanks stands the parenthesis, and not the name a keyword needs
      obtain ⟨site, after⟩ := found
      have hn := takeAfter_eq_some h
      rw [List.dropWhile_append_of_pos hname, a.dropWhile_isNameChar, a.dropWhile_isBlank,
        Arguments.opened, takeNamed_eq_none_of_head (by decide)] at hn
      cases hn
  have hplain := takeNamed_text none (List.cons_ne_nil c name) hname a rest
  rw [List.cons_append] at hunmarked hplain
  rw [takeSite, hunmarked, hunmarked, hplain]
  split <;> rfl

/-- `new` at the start of a word, blanks and a name -/
theorem takeSite_new {c : Char} {keyword gap name : List Char}
    (hk : (c :: keyword).map asciiLower = Keyword.new.text) (hgap : gap ≠ [])
    (hblank : ∀ c ∈ gap, isBlank c = true) (hne : name ≠ [])
    (hname : ∀ c ∈ name, isNameChar c = true) (a : Arguments) (rest : List Char) :
    takeSite none c (keyword ++ (gap ++ (name ++ (a.text ++ rest)))) =
      some (⟨some .new, name⟩, rest) := by
  have hstart : isWordStart none c = true := by
    rw [isWordStart, isWord_of_isAsciiLetter (isAsciiLetter_of_keyword hk List.mem_cons_self)]
    rfl
  have hafter := takeAfter_text hk hgap hblank hne hname a rest
  rw [List.cons_append] at hafter
  rw [takeSite, hstart, hafter]
  rfl

/-! ### statements -/

theorem Namespace.isNameChar_of_mem {n : Namespace} {c : Char} (h : c ∈ n.text) :
    isNameChar c = true := by
  rcases List.mem_append.mp h with h | h
  · cases hr : n.rooted with
    | false => rw [hr] at h; cases h
    | true =>
      rw [hr] at h
      rw [List.mem_singleton.mp h]
      decide
  · obtain ⟨i, _, hc⟩ := List.mem_flatMap.mp h
    rcases List.mem_append.mp hc with hc | hc
    · exact isNameChar_of_isAsciiWord (i.word c hc)
    · rw [List.mem_singleton.mp hc]
      decide

namespace Callee

theorem name_ne_nil (c : Callee) : c.name ≠ [] := by
  cases c with
  | free name _ _ => exact name.ne_nil
  | method owner space name _ => exact List.append_ne_nil_of_left_ne_nil owner.ne_nil _
  | construction _ _ _ _ owner _ => exact owner.ne_nil

theorem isNameChar_of_mem {callee : Callee} {c : Char} (h : c ∈ callee.name) :
    isNameChar c = true := by
  cases callee with
  | free name _ _ => exact isNameChar_of_isAsciiWord (name.word c h)
  | construction _ _ _ _ owner _ => exact isNameChar_of_isAsciiWord (owner.word c h)
  | method owner space name _ =>
    have hcolons : colons.all isNameChar = true := by decide
    rcases List.mem_append.mp h with h | h
    · exact isNameChar_of_isAsciiWord (owner.word c h)
    rcases List.mem_append.mp h with h | h
    · exact List.all_eq_true.mp hcolons c h
    rcases List.mem_append.mp h with h | h
    · exact Namespace.isNameChar_of_mem h
    · exact isNameChar_of_isAsciiWord (name.word c h)

end Callee

namespace Statement

theorem fullName_ne_nil (s : Statement) : s.fullName ≠ [] :=
  List.append_ne_nil_of_right_ne_nil _ s.callee.name_ne_nil

theorem isNameChar_of_mem {s : Statement} {c : Char} (h : c ∈ s.fullName) :
    isNameChar c = true := by
  rcases List.mem_append.mp h with h | h
  · exact Namespace.isNameChar_of_mem h
  · exact Callee.isNameChar_of_mem h

/-- the place where a statement starts -/
theorem exists_takeSite (s : Statement) (rest : List Char) :
    ∃ c more, s.text ++ rest = c :: more ∧ isNameChar c = true ∧
      takeSite none c more = some (s.site, rest) := by
  have hname : ∀ c ∈ s.fullName, isNameChar c = true := fun c => isNameChar_of_mem
  have hplain (hlead : s.callee.lead = []) (hkeyword : s.callee.keyword = none) :
      ∃ c more, s.text ++ rest = c :: more ∧ isNameChar c = true ∧
        takeSite none c more = some (s.site, rest) := by
    rw [text, site, hlead, hkeyword, List.nil_append, List.append_assoc]
    cases hs : s.fullName with
    | nil => exact absurd hs s.fullName_ne_nil
    | cons c name =>
      rw [hs] at hname
      exact ⟨c, _, rfl, hname c List.mem_cons_self, takeSite_name hname none s.arguments rest⟩
  cases hcallee : s.callee with
  | free name _ _ => exact hplain (by rw [hcallee]; rfl) (by rw [hcallee]; rfl)
  | method owner space name _ => exact hplain (by rw [hcallee]; rfl) (by rw [hcallee]; rfl)
  | construction keyword isNew gap gap_ne_nil owner _ =>
    have htext : s.text ++ rest =
        keyword ++ (gap.chars ++ (s.fullName ++ (s.arguments.text ++ rest))) := by
      simp only [text, hcallee, Callee.lead, List.append_assoc]
    rw [htext, site, hcallee]
    cases keyword with
    | nil => cases isNew
    | cons c keyword =>
      have hc : isAsciiWord c = true :=
        isAsciiWord_of_isAsciiLetter (isAsciiLetter_of_keyword isNew List.mem_cons_self)
      exact ⟨c, _, rfl, isNameChar_of_isAsciiWord hc,
        takeSite_new isNew gap_ne_nil gap.blank s.fullName_ne_nil hname s.arguments rest⟩

/-- **A scan finds the site of a statement** and goes on behind it. -/
theorem sites_text (s : Statement) (rest : List Char) :
    sites none (s.text ++ rest) = s.site :: sites none rest := by
  obtain ⟨c, more, htext, -, htake⟩ := s.exists_takeSite rest
  have hsemicolon : (some ';').any isWord = false := by decide
  rw [htext, sites_of_some htake, sites_eq_sites_none hsemicolon]

end Statement

/-! ### scripts -/

namespace Script

theorem body_cons (s : Statement) (space : Space) (statements : List (Statement × Space)) :
    body ((s, space) :: statements) = s.text ++ (space.chars ++ body statements) :=
  List.append_assoc ..

/-- a scan of statements goes on with what follows them -/
theorem sites_body_append (statements : List (Statement × Space)) (rest : List Char) :
    sites none (body statements ++ rest) =
      statements.map (fun (s, _) => s.site) ++ sites none rest := by
  induction statements with
  | nil => rfl
  | cons entry statements ih =>
    obtain ⟨s, space⟩ := entry
    rw [body_cons, List.append_assoc, s.sites_text, List.append_assoc, sites_blanks space.blank, ih]
    rfl

theorem sites_body (statements : List (Statement × Space)) :
    sites none (body statements) = statements.map fun (s, _) => s.site := by
  have h := sites_body_append statements []
  rwa [List.append_nil, sites, List.append_nil] at h

/-- no argument list opens a script -/
theorem afterArguments?_body (gap : Space) (statements : List (Statement × Space)) :
    afterArguments? (gap.chars ++ body statements) = none := by
  cases statements with
  | nil =>
    rw [afterArguments?, List.dropWhile_append_of_pos gap.blank]
    rfl
  | cons entry statements =>
    obtain ⟨s, space⟩ := entry
    obtain ⟨c, more, htext, hc, -⟩ := s.exists_takeSite (space.chars ++ body statements)
    rw [body_cons, htext]
    exact afterArguments?_of_head (isBlank_of_isNameChar hc) (by rintro rfl; cases hc) gap more

/-- no site starts in the opening tag -/
theorem sites_openTag {rest : List Char} (hrest : rest.dropWhile isNameChar = rest)
    (harguments : afterArguments? rest = none) :
    sites none (openTag ++ rest) = sites (some 'p') rest := by
  have hname (name : List Char) (h : name.all isNameChar = true) :
      takeNamed none (name ++ rest) = none :=
    takeNamed_eq_none_of_behind (List.all_eq_true.mp h) hrest harguments none
  have hmark (before : Option Char) {c : Char} (more : List Char)
      (hc : ∀ (k : Keyword) (s : List Char), startsSame k.text (c :: s) = false)
      (hnone : takeNamed none (c :: more) = none) :
      sites before (c :: more) = sites (some c) more :=
    sites_of_none ((takeSite_of_unmarked (fun k => hc k more) before).trans hnone)
  have hp : ∀ (k : Keyword) (s : List Char), startsSame k.text ('p' :: s) = false := by
    intro k s
    cases k <;> rfl
  calc sites none (openTag ++ rest)
      = sites (some '<') ('?' :: ("php".toList ++ rest)) :=
        hmark none _ (fun k s => by cases k <;> rfl) (takeNamed_eq_none_of_head (by decide) ..)
    _ = sites (some '?') ('p' :: ("hp".toList ++ rest)) :=
        hmark _ _ (fun k s => by cases k <;> rfl) (takeNamed_eq_none_of_head (by decide) ..)
    _ = sites (some 'p') ('h' :: ("p".toList ++ rest)) :=
        hmark _ _ hp (hname "php".toList (by decide))
    _ = sites (some 'h') ('p' :: rest) :=
        hmark _ _ (fun k s => by cases k <;> rfl) (hname "hp".toList (by decide))
    _ = sites (some 'p') rest := hmark _ _ hp (hname "p".toList (by decide))

/-- behind the opening tag and its blanks a text stands as if at its start -/
theorem sites_opened {gap : Space} (hgap : gap.chars ≠ []) {rest : List Char}
    (harguments : afterArguments? (gap.chars ++ rest) = none) :
    sites none (openTag ++ (gap.chars ++ rest)) = sites none rest := by
  obtain ⟨b, bs, hb⟩ := List.exists_cons_of_ne_nil hgap
  have hblank : ∀ c ∈ b :: bs, isBlank c = true := hb ▸ gap.blank
  have hname : (gap.chars ++ rest).dropWhile isNameChar = gap.chars ++ rest := by
    rw [hb]
    exact List.dropWhile_cons_of_neg
      (by rw [isNameChar_of_isBlank (hblank b List.mem_cons_self)]; decide)
  rw [sites_openTag hname harguments, hb, List.cons_append,
    sites_blank _ (hblank b List.mem_cons_self)]
  exact sites_blanks (fun c hc => hblank c (List.mem_cons_of_mem _ hc)) rest

/-- **A scan of a script finds the sites of its statements** and no others. -/
theorem sites_text (p : Script) :
    sites none p.text = p.statements.map fun (s, _) => s.site := by
  rw [text, sites_opened p.gap_ne_nil (afterArguments?_body p.gap p.statements)]
  exact sites_body p.statements

end Script

end VersionFloor.Source
