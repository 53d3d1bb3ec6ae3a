import Mathlib.Data.List.Basic
import VersionFloor.Proofs.Source.Calls

/-!
# Source: a call among other text

Text is settled when no name and no argument list goes on behind it.  What a scan finds in settled
text does not depend on what follows, so a call behind settled text is found (`sites_settled`),
whatever that text is.  Behind text that leaves an argument list open the call can become a part of
those arguments (`calls_initialiser`).
-/

namespace VersionFloor.Source

open Text

/-! ### settled text -/

/-- arguments open at the start of the text, and no parenthesis closes them -/
def leavesOpen (s : List Char) : Bool :=
  match s.dropWhile isBlank with
  | '(' :: s => !s.contains ')'
  | _ => false

/-- somewhere in the text stand a name and the start of its arguments, and no parenthesis closes
them -/
def opensCall : List Char → Bool
  | [] => false
  | c :: s => isNameChar c && leavesOpen s || opensCall s

/-- text that does not go on in what follows -/
structure Settled (s : List Char) : Prop where
  last : s.getLast?.any isNameChar = false
  closed : opensCall s = false

instance (s : List Char) : Decidable (Settled s) :=
  decidable_of_iff (s.getLast?.any isNameChar = false ∧ opensCall s = false)
    ⟨fun h => ⟨h.1, h.2⟩, fun h => ⟨h.1, h.2⟩⟩

theorem opensCall_suffix {r s : List Char} (hs : r <:+ s) (h : opensCall s = false) :
    opensCall r = false := by
  obtain ⟨u, rfl⟩ := hs
  induction u with
  | nil => exact h
  | cons c u ih =>
    rw [List.cons_append, opensCall, Bool.or_eq_false_iff] at h
    exact ih h.2

theorem Settled.suffix {r s : List Char} (h : Settled s) (hs : r <:+ s) : Settled r where
  last := by
    obtain ⟨u, rfl⟩ := hs
    cases hr : r.getLast? with
    | none => rfl
    | some c =>
      have hlast := h.last
      rw [List.getLast?_append, hr] at hlast
      exact hlast
  closed := opensCall_suffix hs h.closed

/-- settled text is no part of a name -/
theorem Settled.dropWhile_ne_nil {s : List Char} (h : Settled s) (hne : s ≠ []) :
    s.dropWhile isNameChar ≠ [] := by
  intro hnil
  have hlast := h.last
  rw [List.getLast?_eq_getLast_of_ne_nil hne, Option.any_some,
    List.dropWhile_eq_nil_iff.mp hnil _ (List.getLast_mem hne)] at hlast
  cases hlast

/-- behind a name no arguments stay open -/
theorem leavesOpen_dropWhile {s : List Char} (h : opensCall s = false)
    (hname : s.takeWhile isNameChar ≠ []) : leavesOpen (s.dropWhile isNameChar) = false := by
  induction s with
  | nil => exact absurd rfl hname
  | cons c s ih =>
    rw [opensCall, Bool.or_eq_false_iff] at h
    cases hc : isNameChar c with
    | false => exact absurd (List.takeWhile_cons_of_neg (by rw [hc]; decide)) hname
    | true =>
      rw [hc, Bool.true_and] at h
      rw [List.dropWhile_cons_of_pos hc]
      cases hs : s.takeWhile isNameChar with
      | cons => exact ih h.2 (by rw [hs]; exact List.cons_ne_nil _ _)
      | nil =>
        have hself : s.dropWhile isNameChar = s := by
          rw [← List.nil_append (s.dropWhile isNameChar), ← hs, List.takeWhile_append_dropWhile]
        rw [hself]
        exact h.1

/-! ### text that follows -/

/-- a run that ends inside the first part -/
theorem takeWhile_append_of_dropWhile {p : Char → Bool} {s : List Char} (h : s.dropWhile p ≠ [])
    (t : List Char) :
    (s ++ t).takeWhile p = s.takeWhile p ∧ (s ++ t).dropWhile p = s.dropWhile p ++ t := by
  induction s with
  | nil => exact absurd rfl h
  | cons c s ih =>
    cases hc : p c with
    | false => simp [hc]
    | true =>
      rw [List.dropWhile_cons_of_pos hc] at h
      simp [hc, ih h]

/-- a run ends at the latest where the second part starts -/
theorem dropWhile_append_cons {p : Char → Bool} {d : Char} (hd : p d = false) (s more : List Char) :
    (s ++ d :: more).dropWhile p = s.dropWhile p ++ d :: more := by
  rw [List.dropWhile_append]
  split
  · rename_i hs
    rw [List.isEmpty_iff.mp hs, List.nil_append]
    exact List.dropWhile_cons_of_neg (by rw [hd]; decide)
  · rfl

/-- the text behind a character that has to stand at its start -/
def behind? (c : Char) : List Char → Option (List Char)
  | [] => none
  | d :: s => if d = c then some s else none

theorem afterArguments?_eq (s : List Char) :
    afterArguments? s = (behind? '(' (s.dropWhile isBlank)).bind fun r =>
      behind? ';' (((r.dropWhile (· != ')')).drop 1).dropWhile isBlank) := by
  rw [afterArguments?]
  split
  · rename_i r hs
    rw [hs, behind?, if_pos rfl, Option.bind_some]
    split
    · rename_i t ht
      rw [ht, behind?, if_pos rfl]
    · rename_i hr
      cases ht : ((r.dropWhile (· != ')')).drop 1).dropWhile isBlank with
      | nil => rfl
      | cons c t => rw [behind?, if_neg fun hc : c = ';' => hr t (hc ▸ ht)]
  · rename_i hs
    cases ht : s.dropWhile isBlank with
    | nil => rfl
    | cons c t =>
      rw [behind?, if_neg fun hc : c = '(' => hs t (hc ▸ ht)]
      rfl

theorem behind?_eq_some {c : Char} {s r : List Char} (h : behind? c s = some r) : s = c :: r := by
  cases s with
  | nil => cases h
  | cons d s =>
    rw [behind?] at h
    split at h
    · rename_i hd
      rw [hd, Option.some.inj h]
    · cases h

theorem behind?_append {c d : Char} (hd : d ≠ c) (s more : List Char) :
    behind? c (s ++ d :: more) = (behind? c s).map (· ++ d :: more) := by
  cases s with
  | nil => exact if_neg hd
  | cons a s =>
    rw [List.cons_append, behind?, behind?]
    split
    · rfl
    · rfl

section

variable {d : Char} (hd : isNameChar d = true) (more : List Char)

include hd

theorem afterArguments?_append {s : List Char} (h : leavesOpen s = false) :
    afterArguments? (s ++ d :: more) = (afterArguments? s).map (· ++ d :: more) := by
  have hblank : isBlank d = false := isBlank_of_isNameChar hd
  have hopen : d ≠ '(' := by rintro rfl; cases hd
  have hend : d ≠ ';' := by rintro rfl; cases hd
  rw [afterArguments?_eq, afterArguments?_eq, dropWhile_append_cons hblank, behind?_append hopen]
  cases hs : behind? '(' (s.dropWhile isBlank) with
  | none => rfl
  | some r =>
    have hclosed : r.dropWhile (· != ')') ≠ [] := by
      intro hnil
      rw [leavesOpen, behind?_eq_some hs] at h
      have hmem : ')' ∈ r := by simpa using h
      exact absurd (List.dropWhile_eq_nil_iff.mp hnil ')' hmem) (by decide)
    show behind? ';' ((((r ++ d :: more).dropWhile (· != ')')).drop 1).dropWhile isBlank) =
      (behind? ';' (((r.dropWhile (· != ')')).drop 1).dropWhile isBlank)).map (· ++ d :: more)
    rw [(takeWhile_append_of_dropWhile hclosed _).2,
      List.drop_append_of_le_length (List.length_pos_iff.mpr hclosed),
      dropWhile_append_cons hblank, behind?_append hend]

/-- a found site, with more text behind it -/
def extend (t : List Char) (found : Site × List Char) : Site × List Char :=
  (found.1, found.2 ++ t)

theorem takeNamed_append {s : List Char} (h : Settled s) (hne : s ≠ []) (k : Option Keyword) :
    takeNamed k (s ++ d :: more) = (takeNamed k s).map (extend (d :: more)) := by
  obtain ⟨htake, hdrop⟩ := takeWhile_append_of_dropWhile (h.dropWhile_ne_nil hne) (d :: more)
  rw [takeNamed, takeNamed, htake, hdrop]
  cases hname : s.takeWhile isNameChar with
  | nil => rfl
  | cons c name =>
    have hclosed : leavesOpen (s.dropWhile isNameChar) = false :=
      leavesOpen_dropWhile h.closed (by rw [hname]; exact List.cons_ne_nil _ _)
    simp only [afterArguments?_append hd more hclosed, Option.map_map]
    rfl

end

/-! ### keywords -/

/-- a keyword and blanks, and nothing else -/
def isLead (k : Keyword) (s : List Char) : Bool :=
  let gap := s.drop k.text.length
  startsSame k.text s && !gap.isEmpty && gap.all isBlank

/-- a keyword does not end settled text -/
theorem Settled.length_lt {s : List Char} (h : Settled s) (hne : s ≠ []) {k : Keyword}
    {t : List Char} (hstart : startsSame k.text (s ++ t) = true) : k.text.length < s.length := by
  by_contra hle
  have hletters := isAsciiLetter_of_startsSame hstart
  rw [List.take_append, List.take_of_length_le (Nat.le_of_not_lt hle)] at hletters
  have hword (c : Char) (hc : c ∈ s) : isNameChar c = true :=
    isNameChar_of_isAsciiWord
      (isAsciiWord_of_isAsciiLetter (hletters c (List.mem_append_left _ hc)))
  exact h.dropWhile_ne_nil hne (List.dropWhile_eq_nil_iff.mpr hword)

theorem Settled.startsSame_append {s : List Char} (h : Settled s) (hne : s ≠ []) (k : Keyword)
    (t : List Char) : startsSame k.text (s ++ t) = startsSame k.text s := by
  rw [Bool.eq_iff_iff]
  constructor
  · intro hstart
    rwa [startsSame, List.take_append_of_le_length (h.length_lt hne hstart).le] at hstart
  · intro hstart
    have hlt : k.text.length < s.length :=
      h.length_lt (t := []) hne (by rw [List.append_nil]; exact hstart)
    rwa [startsSame, List.take_append_of_le_length hlt.le]

theorem takeAfter_append {d : Char} (hd : isNameChar d = true) (more : List Char) {s : List Char}
    (h : Settled s) (hne : s ≠ []) {k : Keyword} (hlead : isLead k s = false) :
    takeAfter k (s ++ d :: more) = (takeAfter k s).map (extend (d :: more)) := by
  rw [takeAfter, takeAfter, h.startsSame_append hne]
  split
  · rename_i hstart
    have hlt : k.text.length < s.length :=
      h.length_lt (t := []) hne (by rw [List.append_nil]; exact hstart)
    rw [List.drop_append_of_le_length hlt.le]
    cases hgap : s.drop k.text.length with
    | nil => exact absurd (List.drop_eq_nil_iff.mp hgap) (Nat.not_le.mpr hlt)
    | cons b gap =>
      rw [List.cons_append]
      show (if isBlank b = true then _ else _) = Option.map _ (if isBlank b = true then _ else _)
      split
      · rename_i hb
        have hname : gap.dropWhile isBlank ≠ [] := by
          intro hnil
          have hall : gap.all isBlank = true :=
            List.all_eq_true.mpr (List.dropWhile_eq_nil_iff.mp hnil)
          rw [isLead, hstart, hgap, List.all_cons, hb, hall] at hlead
          cases hlead
        have hsuffix : gap.dropWhile isBlank <:+ s :=
          (List.dropWhile_suffix _).trans ((List.suffix_cons b gap).trans
            (hgap ▸ List.drop_suffix _ s))
        rw [dropWhile_append_cons (isBlank_of_isNameChar hd)]
        exact takeNamed_append hd more (h.suffix hsuffix) hname _
      · rfl
  · rfl

theorem takeAfter_lead {k : Keyword} {s name : List Char} (hlead : isLead k s = true)
    (hne : name ≠ []) (hname : ∀ c ∈ name, isNameChar c = true) (a : Arguments)
    (rest : List Char) :
    takeAfter k (s ++ (name ++ (a.text ++ rest))) = some (⟨some k, name⟩, rest) := by
  rw [isLead, Bool.and_eq_true, Bool.and_eq_true, Bool.not_eq_true', List.isEmpty_eq_false_iff]
    at hlead
  obtain ⟨⟨hstart, hgap⟩, hblank⟩ := hlead
  have htext := takeAfter_text (k.startsSame_iff.mp hstart) hgap (List.all_eq_true.mp hblank) hne
    hname a rest
  rwa [← List.append_assoc, List.take_append_drop] at htext

/-! ### one place of the text -/

theorem takeSite_lead {before : Option Char} {c : Char} {s name : List Char} {k : Keyword}
    (hword : isWordStart before c = true) (hlead : isLead k (c :: s) = true) (hne : name ≠ [])
    (hname : ∀ c ∈ name, isNameChar c = true) (a : Arguments) (rest : List Char) :
    takeSite before c (s ++ (name ++ (a.text ++ rest))) = some (⟨some k, name⟩, rest) := by
  have hafter := takeAfter_lead hlead hne hname a rest
  rw [List.cons_append] at hafter
  rw [takeSite, if_pos hword]
  cases k with
  | new => rw [hafter]; rfl
  | function =>
    have hnone : takeAfter .new (c :: (s ++ (name ++ (a.text ++ rest)))) = none := by
      rw [takeAfter, if_neg]
      intro hnew
      have hn : asciiLower c = 'n' := (List.cons.inj (beq_iff_eq.mp hnew)).1
      rw [isLead, Bool.and_eq_true, Bool.and_eq_true] at hlead
      have hf : asciiLower c = 'f' := (List.cons.inj (beq_iff_eq.mp hlead.1.1)).1
      exact absurd (hn.symm.trans hf) (by decide)
    rw [hnone, hafter]
    rfl

theorem takeSite_append {d : Char} (hd : isNameChar d = true) (more : List Char)
    {before : Option Char} {c : Char} {s : List Char} (h : Settled (c :: s))
    (hlead : ∀ k, isWordStart before c = true → isLead k (c :: s) = false) :
    takeSite before c (s ++ d :: more) = (takeSite before c s).map (extend (d :: more)) := by
  have hne : c :: s ≠ [] := List.cons_ne_nil c s
  have hnamed := takeNamed_append hd more h hne none
  rw [List.cons_append] at hnamed
  rw [takeSite, takeSite, hnamed, Option.map_or]
  split
  · rename_i hword
    have hafter (k : Keyword) : takeAfter k (c :: (s ++ d :: more)) =
        (takeAfter k (c :: s)).map (extend (d :: more)) :=
      takeAfter_append hd more h hne (hlead k hword)
    rw [hafter, hafter, Option.map_or]
  · rfl

/-! ### the whole text -/

/-- the keyword of which the text consists, blanks behind it -/
def leadOf? (s : List Char) : Option Keyword := [.new, .function].find? (isLead · s)

/-- the keyword with which the text ends, blanks behind it; `before` is the character in front of
the text -/
def keywordAtEnd? (before : Option Char) : List Char → Option Keyword
  | [] => none
  | c :: s =>
    (if isWordStart before c then leadOf? (c :: s) else none).or (keywordAtEnd? (some c) s)

theorem leadOf?_eq_none {s : List Char} (h : leadOf? s = none) (k : Keyword) :
    isLead k s = false := by
  have hall := List.find?_eq_none.mp h k (by cases k <;> decide)
  rwa [Bool.not_eq_true] at hall

theorem isLead_of_leadOf? {k : Keyword} {s : List Char} (h : leadOf? s = some k) :
    isLead k s = true :=
  List.find?_some (p := (isLead · s)) h

theorem not_mem_of_leadOf? {k : Keyword} {s : List Char} (h : leadOf? s = some k) : ';' ∉ s := by
  have hlead := isLead_of_leadOf? h
  rw [isLead, Bool.and_eq_true, Bool.and_eq_true] at hlead
  intro hmem
  rw [← List.take_append_drop k.text.length s] at hmem
  rcases List.mem_append.mp hmem with hmem | hmem
  · exact absurd (isAsciiLetter_of_startsSame hlead.1.1 _ hmem) (by decide)
  · exact absurd (List.all_eq_true.mp hlead.2 _ hmem) (by decide)

/-- no keyword goes on over a semicolon -/
theorem keywordAtEnd?_append (before : Option Char) (u after : List Char) :
    keywordAtEnd? before (u ++ ';' :: after) = keywordAtEnd? (some ';') after := by
  induction u generalizing before with
  | nil => rfl
  | cons c u ih =>
    have hnone : leadOf? (c :: (u ++ ';' :: after)) = none := by
      cases h : leadOf? (c :: (u ++ ';' :: after)) with
      | none => rfl
      | some k => exact absurd (by simp) (not_mem_of_leadOf? h)
    rw [List.cons_append, keywordAtEnd?, hnone, ih]
    split <;> rfl

theorem sites_eq_nil {s : List Char} (h : ';' ∉ s) (before : Option Char) :
    sites before s = [] := by
  induction s generalizing before with
  | nil => rw [sites]
  | cons c s ih =>
    cases htake : takeSite before c s with
    | some found => exact absurd ((takeSite_suffix htake).subset List.mem_cons_self) h
    | none =>
      rw [sites_of_none htake]
      exact ih (fun hs => h (List.mem_cons_of_mem c hs)) _

/-- **A call behind settled text is found**: a scan finds what it finds in that text alone, then the
call with the keyword in front of it, and goes on behind its semicolon. -/
theorem sites_settled (before : Option Char) {s name : List Char} (h : Settled s) (hne : name ≠ [])
    (hname : ∀ c ∈ name, isNameChar c = true) (a : Arguments) (rest : List Char) :
    sites before (s ++ (name ++ (a.text ++ rest))) =
      sites before s ++ ⟨keywordAtEnd? before s, name⟩ :: sites (some ';') rest := by
  obtain ⟨d, tail, rfl⟩ := List.exists_cons_of_ne_nil hne
  have hd : isNameChar d = true := hname d List.mem_cons_self
  fun_induction sites before s with
  | case1 before =>
    exact sites_of_some (takeSite_name hname before a rest)
  | case2 before c s site after htake ih =>
    -- a site of the text itself ends with a semicolon, and no keyword goes on over that
    have hsuffix := takeSite_suffix htake
    have hlead (k : Keyword) (_ : isWordStart before c = true) : isLead k (c :: s) = false := by
      cases hk : leadOf? (c :: s) with
      | none => exact leadOf?_eq_none hk k
      | some k' => exact absurd (hsuffix.subset List.mem_cons_self) (not_mem_of_leadOf? hk)
    obtain ⟨u, hu⟩ := hsuffix
    have happend := takeSite_append hd (tail ++ (a.text ++ rest)) h hlead
    rw [htake] at happend
    rw [← hu, keywordAtEnd?_append, hu, List.cons_append]
    exact (sites_of_some happend).trans
      (congrArg (site :: ·) (ih (h.suffix ((List.suffix_cons _ _).trans ⟨u, hu⟩))))
  | case3 before c s htake ih =>
    -- nothing starts here but a keyword in front of the call, which is a site with it
    rw [keywordAtEnd?]
    cases hk : if isWordStart before c then leadOf? (c :: s) else none with
    | some k =>
      obtain ⟨hword, hlead⟩ := Option.ite_none_right_eq_some.mp hk
      have hnil : sites (some c) s = [] :=
        sites_eq_nil (fun hs => not_mem_of_leadOf? hlead (List.mem_cons_of_mem c hs)) _
      rw [hnil]
      exact sites_of_some (takeSite_lead hword (isLead_of_leadOf? hlead) hne hname a rest)
    | none =>
      have hlead (k : Keyword) (hword : isWordStart before c = true) :
          isLead k (c :: s) = false := by
        rw [if_pos hword] at hk
        exact leadOf?_eq_none hk k
      have happend := takeSite_append hd (tail ++ (a.text ++ rest)) h hlead
      rw [htake] at happend
      exact (sites_of_none happend).trans (ih (h.suffix (List.suffix_cons c s)))

/-- **No plain call behind settled text is lost**, whatever stands in that text and behind the
call. -/
theorem mem_calls_of_settled {text s name rest : List Char} {a : Arguments} {call : Call}
    (hregion : s ++ (name ++ (a.text ++ rest)) ∈ regions text) (h : Settled s) (hne : name ≠ [])
    (hname : ∀ c ∈ name, isNameChar c = true)
    (hcall : Site.call? ⟨keywordAtEnd? none s, name⟩ = some call) : call ∈ calls text := by
  have hsite : ⟨keywordAtEnd? none s, name⟩ ∈ sites none (s ++ (name ++ (a.text ++ rest))) := by
    rw [sites_settled none h hne hname]
    exact List.mem_append_right _ List.mem_cons_self
  rw [mem_calls, callsAsWritten, List.mem_flatMap]
  exact ⟨_, hregion, List.mem_filterMap.mpr ⟨_, hsite, hcall⟩⟩

/-- a construction behind a condition, another call and its keyword -/
theorem mem_calls_of_settled_construction :
    Call.construction "Foo" ∈
      calls "<?php if ($a) \x7b b(1); NEW \\n\\Foo ( 2 ) ; \x7d".toList := by
  let s := "<?php if ($a) \x7b b(1); NEW ".toList
  let name := "\\n\\Foo".toList
  let a : Arguments :=
    ⟨.ofString " " (by decide), " 2 ".toList, by decide, .ofString " " (by decide)⟩
  have hregion : s ++ (name ++ (a.text ++ " \x7d".toList)) ∈
      regions "<?php if ($a) \x7b b(1); NEW \\n\\Foo ( 2 ) ; \x7d".toList := by decide +kernel
  have hsettled : Settled s := by decide +kernel
  have hname : ∀ c ∈ name, isNameChar c = true := List.all_eq_true.mp (by decide +kernel)
  have hcall : Site.call? ⟨keywordAtEnd? none s, name⟩ = some (.construction "Foo") := by
    decide +kernel
  exact mem_calls_of_settled hregion hsettled (by decide +kernel) hname hcall

/-! ### open arguments -/

/-- the initialiser of a loop stands in arguments that are open, and its call is lost with them -/
theorem calls_initialiser :
    let text := "<?php for ($i = count($a); $i < 3; $i++) \x7b\x7d".toList
    let before := "<?php for ($i = ".toList
    let a : Arguments := ⟨.ofString "" rfl, "$a".toList, by decide, .ofString "" rfl⟩
    let rest := " $i < 3; $i++) \x7b\x7d".toList
    regions text = [text] ∧ text = before ++ ("count".toList ++ (a.text ++ rest)) ∧
      before.getLast?.any isNameChar = false ∧ '(' ∉ a.inside ∧
      Site.call? ⟨keywordAtEnd? none before, "count".toList⟩ = some (.free "count") ∧
      opensCall before = true ∧ Call.free "count" ∉ calls text := by
  decide +kernel

end VersionFloor.Source
