import VersionFloor.Proofs.Source.Occurrence

/-!
# Source: declarations without a body

A scan finds one site in a declaration, and with `function` in front of its name that site stands
for no call; but where the name is taken by reference, the keyword does not reach over the `&`, and
the name is read as a call.  So a declaration among the statements of a script adds the call of its
name when it is by reference, and nothing else (`calls_declare`).
-/

namespace VersionFloor.Source

open Text

/-- a word in front of a declaration, with the blanks behind it -/
structure Modifier where
  word : Identifier
  gap : Space
  gap_ne_nil : gap.chars ≠ []

structure Declaration where
  modifiers : List Modifier
  /-- in any case -/
  keyword : List Char
  isFunction : keyword.map asciiLower = Keyword.function.text
  gap : Space
  gap_ne_nil : gap.chars ≠ []
  /-- the blanks behind the `&` of a function that returns a reference -/
  reference : Option Space
  name : Identifier
  parameters : Arguments
  untagged : ¬ ['?', '>'] <:+: parameters.inside

def Modifier.text (m : Modifier) : List Char := m.word.chars ++ m.gap.chars

namespace Declaration

/-- what stands between the keyword with its blanks and the name -/
def mark (d : Declaration) : List Char :=
  match d.reference with
  | some space => '&' :: space.chars
  | none => []

def text (d : Declaration) : List Char :=
  d.modifiers.flatMap Modifier.text ++
    (d.keyword ++ (d.gap.chars ++ (d.mark ++ (d.name.chars ++ d.parameters.text))))

/-- what a scan makes of a declaration -/
def site (d : Declaration) : Site :=
  ⟨if d.reference.isSome then none else some .function, d.name.chars⟩

/-- the call that is read from a declaration -/
def call? (d : Declaration) : Option Call :=
  match d.reference with
  | some _ =>
    if isSelf d.name.chars || isControl d.name.chars then none
    else some (.free (String.ofList d.name.chars))
  | none => none

end Declaration

/-- the text of a script with a declaration behind its first `n` statements -/
def Script.declare (p : Script) (n : Nat) (d : Declaration) (space : Space) : List Char :=
  openTag ++ (p.gap.chars ++ (body (p.statements.take n) ++
    (d.text ++ (space.chars ++ body (p.statements.drop n)))))

/-! ### words in front of a declaration -/

/-- no name goes on into blanks -/
theorem Space.dropWhile_isNameChar {gap : Space} (hgap : gap.chars ≠ []) (s : List Char) :
    (gap.chars ++ s).dropWhile isNameChar = gap.chars ++ s := by
  obtain ⟨b, more, hb⟩ := List.exists_cons_of_ne_nil hgap
  have hblank : isBlank b = true := gap.blank b (hb ▸ List.mem_cons_self)
  rw [hb]
  exact List.dropWhile_cons_of_neg (by rw [isNameChar_of_isBlank hblank]; decide)

/-- no name with arguments starts here, and no arguments behind blanks -/
structure Quiet (s : List Char) : Prop where
  head : ∃ c more, s = c :: more ∧ isBlank c = false ∧ c ≠ '('
  unnamed : ∀ k, takeNamed k s = none

namespace Quiet

variable {s : List Char}

theorem afterArguments?_eq (h : Quiet s) (gap : Space) :
    afterArguments? (gap.chars ++ s) = none := by
  obtain ⟨c, more, rfl, hblank, hopen⟩ := h.head
  exact afterArguments?_of_head hblank hopen gap more

theorem dropWhile_isBlank (h : Quiet s) (gap : Space) : (gap.chars ++ s).dropWhile isBlank = s := by
  obtain ⟨c, more, rfl, hblank, -⟩ := h.head
  exact dropWhile_run gap.blank fun d hd => Option.some.inj hd ▸ hblank

/-- a word in front leaves a text quiet -/
theorem word {w : List Char} (hne : w ≠ []) (hw : ∀ c ∈ w, isNameChar c = true) {gap : Space}
    (hgap : gap.chars ≠ []) (h : Quiet s) : Quiet (w ++ (gap.chars ++ s)) where
  head := by
    obtain ⟨c, more, rfl⟩ := List.exists_cons_of_ne_nil hne
    have hc : isNameChar c = true := hw c List.mem_cons_self
    exact ⟨c, _, rfl, isBlank_of_isNameChar hc, by rintro rfl; cases hc⟩
  unnamed := takeNamed_eq_none_of_behind hw (gap.dropWhile_isNameChar hgap s)
    (h.afterArguments?_eq gap)

end Quiet

/-- **No site starts in a word that a quiet text follows**, even if the word is a keyword. -/
theorem sites_word {w s : List Char} (hw : ∀ c ∈ w, isNameChar c = true) {gap : Space}
    (hgap : gap.chars ≠ []) (h : Quiet s) (before : Option Char) :
    sites before (w ++ (gap.chars ++ s)) = sites none s := by
  induction w generalizing before with
  | nil =>
    obtain ⟨b, more, hb⟩ := List.exists_cons_of_ne_nil hgap
    have hblank : ∀ c ∈ b :: more, isBlank c = true := hb ▸ gap.blank
    rw [List.nil_append, hb, List.cons_append, sites_blank _ (hblank b List.mem_cons_self)]
    exact sites_blanks (fun c hc => hblank c (List.mem_cons_of_mem _ hc)) s
  | cons c w ih =>
    have hunnamed (k : Option Keyword) : takeNamed k (c :: w ++ (gap.chars ++ s)) = none :=
      (h.word (List.cons_ne_nil c w) hw hgap).unnamed k
    have hmarked (k : Keyword) : takeAfter k (c :: w ++ (gap.chars ++ s)) = none := by
      rw [Option.eq_none_iff_forall_ne_some]
      rintro ⟨site, after⟩ hfound
      have hname := takeAfter_eq_some hfound
      rw [List.dropWhile_append_of_pos hw, Space.dropWhile_isNameChar hgap,
        h.dropWhile_isBlank, h.unnamed] at hname
      cases hname
    rw [List.cons_append] at hunnamed hmarked
    have htake : takeSite before c (w ++ (gap.chars ++ s)) = none := by
      rw [takeSite, hmarked, hmarked, hunnamed]
      split <;> rfl
    rw [List.cons_append, sites_of_none htake]
    exact ih (fun d hd => hw d (List.mem_cons_of_mem _ hd)) _

theorem sites_modifiers {s : List Char} (h : Quiet s) (modifiers : List Modifier) :
    sites none (modifiers.flatMap Modifier.text ++ s) = sites none s ∧
      Quiet (modifiers.flatMap Modifier.text ++ s) := by
  induction modifiers with
  | nil => exact ⟨rfl, h⟩
  | cons m modifiers ih =>
    have hword : ∀ c ∈ m.word.chars, isNameChar c = true :=
      fun c hc => isNameChar_of_isAsciiWord (m.word.word c hc)
    rw [List.flatMap_cons, Modifier.text, List.append_assoc, List.append_assoc]
    exact ⟨(sites_word hword m.gap_ne_nil ih.2 none).trans ih.1,
      ih.2.word m.word.ne_nil hword m.gap_ne_nil⟩

namespace Declaration

variable (d : Declaration)

theorem isNameChar_of_mem_name {c : Char} (h : c ∈ d.name.chars) : isNameChar c = true :=
  isNameChar_of_isAsciiWord (d.name.word c h)

theorem isNameChar_of_mem_keyword {c : Char} (h : c ∈ d.keyword) : isNameChar c = true :=
  isNameChar_of_isAsciiWord (isAsciiWord_of_isAsciiLetter (isAsciiLetter_of_keyword d.isFunction h))

theorem keyword_ne_nil : d.keyword ≠ [] := by
  intro h
  have hfunction := d.isFunction
  rw [h] at hfunction
  cases hfunction

/-- the text from the `&` or the name on -/
def tail (rest : List Char) : List Char :=
  d.mark ++ (d.name.chars ++ (d.parameters.text ++ rest))

theorem text_append (rest : List Char) :
    d.text ++ rest =
      d.modifiers.flatMap Modifier.text ++ (d.keyword ++ (d.gap.chars ++ d.tail rest)) := by
  simp only [text, tail, List.append_assoc]

theorem quiet_keyword (rest : List Char) : Quiet (d.keyword ++ (d.gap.chars ++ d.tail rest)) where
  head := by
    obtain ⟨c, more, hc⟩ := List.exists_cons_of_ne_nil d.keyword_ne_nil
    have hname : isNameChar c = true := d.isNameChar_of_mem_keyword (hc ▸ List.mem_cons_self)
    exact ⟨c, _, by rw [hc]; rfl, isBlank_of_isNameChar hname, by rintro rfl; cases hname⟩
  unnamed := by
    refine takeNamed_eq_none_of_behind (fun c => d.isNameChar_of_mem_keyword)
      (Space.dropWhile_isNameChar d.gap_ne_nil _) ?_
    obtain ⟨c, more, hc⟩ := List.exists_cons_of_ne_nil d.name.ne_nil
    have hname : isNameChar c = true := d.isNameChar_of_mem_name (hc ▸ List.mem_cons_self)
    cases hreference : d.reference with
    | some space =>
      rw [tail, mark, hreference]
      exact afterArguments?_of_head (by decide) (by decide) d.gap _
    | none =>
      rw [tail, mark, hreference, hc]
      exact afterArguments?_of_head (isBlank_of_isNameChar hname) (by rintro rfl; cases hname)
        d.gap _

/-- the keyword reaches the name, but not over an `&` -/
theorem sites_keyword (rest : List Char) :
    sites none (d.keyword ++ (d.gap.chars ++ d.tail rest)) = d.site :: sites none rest := by
  have hsemicolon : (some ';').any isWord = false := by decide
  have hname : ∀ c ∈ d.name.chars, isNameChar c = true := fun c => d.isNameChar_of_mem_name
  cases hreference : d.reference with
  | none =>
    have hlead : isLead .function (d.keyword ++ d.gap.chars) = true :=
      isLead_iff.mpr ⟨_, _, rfl, d.isFunction, d.gap_ne_nil, d.gap.blank⟩
    obtain ⟨c, more, hc⟩ := List.exists_cons_of_ne_nil d.keyword_ne_nil
    have hletter : isAsciiLetter c = true :=
      isAsciiLetter_of_keyword d.isFunction (hc ▸ List.mem_cons_self)
    have hword : isWordStart none c = true := by
      rw [isWordStart, isWord_of_isAsciiLetter hletter]
      rfl
    rw [hc, List.cons_append] at hlead
    have htake := takeSite_lead hword hlead d.name.ne_nil hname d.parameters rest
    rw [List.append_assoc] at htake
    rw [hc, List.cons_append, tail, mark, site, hreference, List.nil_append, sites_of_some htake,
      sites_eq_sites_none hsemicolon]
    rfl
  | some space =>
    have hhead : ∀ k more, takeNamed k ('&' :: more) = none :=
      fun k => takeNamed_eq_none_of_head (by decide) k
    have hquiet (more : List Char) : Quiet ('&' :: more) :=
      ⟨⟨'&', more, rfl, by decide, by decide⟩, fun k => hhead k more⟩
    have htake (more : List Char) : takeSite none '&' more = none := by
      rw [takeSite, hhead]
      rfl
    have hand : (some '&').any isWord = false := by decide
    obtain ⟨c, more, hc⟩ := List.exists_cons_of_ne_nil d.name.ne_nil
    rw [hc] at hname
    rw [tail, mark, hreference, site, hreference, List.cons_append,
      sites_word (fun c => d.isNameChar_of_mem_keyword) d.gap_ne_nil (hquiet _),
      sites_of_none (htake _), sites_eq_sites_none hand, sites_blanks space.blank, hc,
      List.cons_append, sites_of_some (takeSite_name hname none d.parameters rest),
      sites_eq_sites_none hsemicolon]
    rfl

/-- **A scan finds the site of a declaration** and goes on behind it. -/
theorem sites_text (rest : List Char) :
    sites none (d.text ++ rest) = d.site :: sites none rest := by
  rw [text_append, (sites_modifiers (d.quiet_keyword rest) d.modifiers).1, sites_keyword]

theorem call?_site : d.site.call? = d.call? := by
  rw [Site.call?, site, call?]
  cases d.reference with
  | none => rfl
  | some space =>
    show plainCallOf? (afterLast '\\' d.name.chars) = _
    rw [afterLast_of_not_mem (d.name.not_mem (by decide)), plainCallOf?_name]

/-! ### the region -/

theorem passes_text : Passes d.text := by
  have hword (w : List Char) (hw : ∀ c ∈ w, isNameChar c = true) : Passes w :=
    passes_of_not_mem fun h => absurd (hw _ h) (by decide)
  have hmodifiers : Passes (d.modifiers.flatMap Modifier.text) := by
    refine passes_of_not_mem fun h => ?_
    obtain ⟨m, -, hm⟩ := List.mem_flatMap.mp h
    rcases List.mem_append.mp hm with hm | hm
    · exact m.word.not_mem (by decide) hm
    · exact absurd (m.gap.blank _ hm) (by decide)
  have hmark : Passes d.mark := by
    rw [mark]
    cases d.reference with
    | none => exact passes_of_not_mem List.not_mem_nil
    | some space =>
      refine passes_of_not_mem fun h => ?_
      rcases List.mem_cons.mp h with h | h
      · cases h
      · exact absurd (space.blank _ h) (by decide)
  exact hmodifiers.append ((hword _ fun c => d.isNameChar_of_mem_keyword).append
    ((Statement.passes_space _).append (hmark.append
      ((hword _ fun c => d.isNameChar_of_mem_name).append
        (Statement.passes_arguments d.untagged)))))

theorem exists_head (rest : List Char) :
    ∃ c more, d.text ++ rest = c :: more ∧ isBlank c = false ∧ c ≠ '(' := by
  rw [text_append]
  exact (sites_modifiers (d.quiet_keyword rest) d.modifiers).2.head

end Declaration

/-! ### a declaration in a script -/

namespace Script

variable (p : Script) (n : Nat) (d : Declaration) (space : Space)

theorem regions_declare : regions (p.declare n d space) = [p.declare n d space] := by
  have hbehind : Passes (space.chars ++ body (p.statements.drop n)) :=
    (Statement.passes_space space).append (passes_body _)
  exact regions_openTag (((Statement.passes_space p.gap).append
    ((passes_body _).append (d.passes_text.append hbehind))).takeBody_eq)

/-- neither a statement nor a declaration starts with arguments -/
theorem afterArguments?_declare (statements : List (Statement × Space)) (rest : List Char) :
    afterArguments? (p.gap.chars ++ (body statements ++ (d.text ++ rest))) = none := by
  cases statements with
  | nil =>
    obtain ⟨c, more, htext, hblank, hopen⟩ := d.exists_head rest
    rw [body, List.flatMap_nil, List.nil_append, htext]
    exact afterArguments?_of_head hblank hopen p.gap more
  | cons entry statements =>
    obtain ⟨s, space⟩ := entry
    obtain ⟨c, more, htext, hc, -⟩ :=
      s.exists_takeSite (space.chars ++ body statements ++ (d.text ++ rest))
    rw [body_cons, List.append_assoc, htext]
    exact afterArguments?_of_head (isBlank_of_isNameChar hc) (by rintro rfl; cases hc) p.gap more

theorem sites_declare :
    sites none (p.declare n d space) =
      (p.statements.take n).map (fun (s, _) => s.site) ++
        d.site :: (p.statements.drop n).map fun (s, _) => s.site := by
  rw [declare, sites_opened p.gap_ne_nil (p.afterArguments?_declare d _ _), sites_body_append,
    d.sites_text, sites_blanks space.blank, sites_body]

theorem callsAsWritten_declare :
    callsAsWritten (p.declare n d space) =
      (p.statements.take n).filterMap (fun (s, _) => s.callee.call?) ++
        (d.call?.toList ++ (p.statements.drop n).filterMap fun (s, _) => s.callee.call?) := by
  have hstatements (statements : List (Statement × Space)) :
      (statements.map fun (s, _) => s.site).filterMap Site.call? =
        statements.filterMap fun (s, _) => s.callee.call? := by
    rw [List.filterMap_map]
    exact List.filterMap_congr fun e _ => e.1.call?_site
  rw [callsAsWritten, p.regions_declare n d space, List.flatMap_cons, List.flatMap_nil,
    List.append_nil, p.sites_declare n d space, List.filterMap_append, hstatements,
    ← List.singleton_append, List.filterMap_append, hstatements]
  congr 2
  rw [List.filterMap_cons, d.call?_site]
  cases d.call? <;> rfl

end Script

/-- **A declaration in a script changes nothing**, wherever it stands between the statements, unless
it is by reference and its name is one that can be called: then the call of its name comes in
addition, and nothing else. -/
theorem calls_declare (p : Script) (n : Nat) (d : Declaration) (space : Space) :
    (d.call? = none → calls (p.declare n d space) = calls p.text) ∧
      ∀ call, call ∈ calls (p.declare n d space) ↔ call ∈ calls p.text ∨ d.call? = some call := by
  have hwritten := p.callsAsWritten_declare n d space
  have hsplit : p.calls = (p.statements.take n).filterMap (fun (s, _) => s.callee.call?) ++
      (p.statements.drop n).filterMap fun (s, _) => s.callee.call? := by
    rw [← List.filterMap_append, List.take_append_drop, Script.calls]
  constructor
  · intro hnone
    rw [hnone, Option.toList_none, List.nil_append, ← hsplit, ← p.callsAsWritten_text] at hwritten
    rw [calls, calls, hwritten]
  · intro call
    rw [mem_calls, mem_calls, hwritten, p.callsAsWritten_text, hsplit]
    simp only [List.mem_append, Option.mem_toList]
    tauto

/-- a free call in the place of the method, also without arguments -/
def bareCall (name : Identifier) (notSelf : isSelf name.chars = false)
    (notControl : isControl name.chars = false) : Statement :=
  { innerNamespace with callee := .free name notSelf notControl }

def Space.empty : Space := ⟨[], fun _ h => absurd h List.not_mem_nil⟩

/-- a function that returns a reference -/
def byReference : Declaration where
  modifiers := []
  keyword := "function".toList
  isFunction := by decide
  gap := .ofString " " rfl
  gap_ne_nil := by decide
  reference := some .empty
  name := .ofString "foo" rfl
  parameters := ⟨.empty, "$x".toList, by decide, .empty⟩
  untagged := by decide

/-- its name is read as a call -/
theorem calls_byReference :
    let p : Script := ⟨.ofString " " rfl, by decide,
      [(bareCall (.ofString "a" rfl) (by decide) (by decide), .ofString " " rfl),
        (bareCall (.ofString "b" rfl) (by decide) (by decide), .ofString "" rfl)]⟩
    let text := p.declare 1 byReference (.ofString " " rfl)
    text = "<?php a(); function &foo($x); b();".toList ∧ Call.free "foo" ∈ calls text ∧
      Call.free "foo" ∉ calls p.text ∧ calls text ≠ calls p.text := by
  intro p text
  have hread : Call.free "foo" ∈ calls text := by
    rw [mem_calls]
    decide +kernel
  have hnone : Call.free "foo" ∉ calls p.text := by
    rw [mem_calls]
    decide +kernel
  refine ⟨by decide +kernel, hread, hnone, ?_⟩
  intro hsame
  exact hnone (hsame ▸ hread)

end VersionFloor.Source
