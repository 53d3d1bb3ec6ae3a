import VersionFloor.Proofs.Source.Occurrence

/-!
# Source: colons in calls

A name is read as letters, digits, underscores and colons, and the colons are to be gone when a call
is made of it: a method is divided at one pair, an owner that is constructed loses them at both
ends.  Every other colon is refused in a free name only; in a method and in an owner it stays, so
the calls with such parts are those of names that are not tidy (`calls_plain_iff`).
-/

namespace VersionFloor.Source

open Text

/-! ### the parts of a call -/

namespace Call

/-- what is looked up in a catalog -/
def parts (call : Call) : List String := call.owner?.toList ++ call.name?.toList

/-- every part is made of letters, digits and underscores -/
def IsPlain (call : Call) : Prop := ∀ part ∈ call.parts, ∀ c ∈ part.toList, isAsciiWord c = true

-- by the characters of each part, not by all characters there are
instance (call : Call) : Decidable call.IsPlain :=
  have (part : String) : Decidable (∀ c ∈ part.toList, isAsciiWord c = true) :=
    List.decidableBAll _ part.toList
  List.decidableBAll _ call.parts

/-- How far the parts of any call are plain: colons are all that they can have else.  A free name
has none, the parts of a method no pair, and a constructed owner none at its ends. -/
def IsShaped : Call → Prop
  | .free name => ∀ c ∈ name.toList, isAsciiWord c = true
  | .method owner name =>
    (∀ c ∈ owner.toList ++ name.toList, isAsciiWord c = true ∨ c = ':') ∧
      ¬ colons <:+: owner.toList ++ [':'] ∧ ¬ colons <:+: name.toList
  | .construction owner =>
    (∀ c ∈ owner.toList, isAsciiWord c = true ∨ c = ':') ∧
      owner.toList.head? ≠ some ':' ∧ owner.toList.getLast? ≠ some ':'

end Call

/-! ### tidy names -/

/-- one word, colons at most around it -/
def IsOneWord (name : List Char) : Prop :=
  ∃ front word back, name = front ++ (word ++ back) ∧ (∀ c ∈ front, c = ':') ∧ ':' ∉ word ∧
    ∀ c ∈ back, c = ':'

/-- one word, or two with a pair of colons between them -/
def IsWordOrPair (name : List Char) : Prop :=
  ':' ∉ name ∨ ∃ owner method, name = owner ++ (colons ++ method) ∧ ':' ∉ owner ∧ ':' ∉ method

namespace Site

/-- the name without its namespace -/
def ownName (s : Site) : List Char := afterLast '\\' s.name

/-- no colon stands where a call of this kind has none -/
def IsTidy (s : Site) : Prop :=
  match s.keyword with
  | some _ => IsOneWord s.ownName
  | none => IsWordOrPair s.ownName

end Site

theorem isOneWord_iff (name : List Char) :
    IsOneWord name ↔ ':' ∉ trimBy (· == ':') name := by
  constructor
  · rintro ⟨front, word, back, rfl, hfront, hword, hback⟩
    rw [trimBy_append (fun c hc => beq_iff_eq.mpr (hfront c hc))
      (fun c hc => beq_false_of_ne fun he => hword (he ▸ hc))
      (fun c hc => beq_iff_eq.mpr (hback c hc))]
    exact hword
  · intro h
    obtain ⟨front, back, hname, hfront, hback⟩ := exists_trimBy (· == ':') name
    exact ⟨front, _, back, hname, fun c hc => beq_iff_eq.mp (hfront c hc), h,
      fun c hc => beq_iff_eq.mp (hback c hc)⟩

/-- among letters, digits, underscores and colons, only the colons are not plain -/
theorem forall_isAsciiWord_iff {s : List Char} (h : ∀ c ∈ s, isAsciiWord c = true ∨ c = ':') :
    (∀ c ∈ s, isAsciiWord c = true) ↔ ':' ∉ s := by
  constructor
  · intro hword hmem
    exact absurd (hword ':' hmem) (by decide)
  · intro hnot c hc
    refine (h c hc).resolve_right ?_
    rintro rfl
    exact hnot hc

/-! ### from a name to a call -/

section

variable {name : List Char} {call : Call}

/-- all that is asked of a construction -/
theorem constructionOf?_eq_some (h : constructionOf? name = some call) :
    trimBy (· == ':') name ≠ [] ∧ isSelf (trimBy (· == ':') name) = false ∧
      call = .construction (String.ofList (trimBy (· == ':') name)) := by
  rw [constructionOf?] at h
  obtain ⟨hnot, hcall⟩ := Option.ite_none_left_eq_some.mp h
  rw [Bool.or_eq_true, not_or, Bool.not_eq_true, Bool.not_eq_true, List.isEmpty_eq_false_iff] at hnot
  exact ⟨hnot.1, hnot.2, (Option.some.inj hcall).symm⟩

/-- all that is asked of a method, which has two parts, and of a free call -/
theorem plainCallOf?_eq_some (h : plainCallOf? name = some call) :
    (∃ owner method, splitFirst colons name = some (owner, method) ∧
      splitFirst colons method = none ∧ owner ≠ [] ∧ method ≠ [] ∧ isSelf owner = false ∧
      call = .method (String.ofList owner) (String.ofList method)) ∨
    (name ≠ [] ∧ ':' ∉ name ∧ isSelf name = false ∧ isControl name = false ∧
      call = .free (String.ofList name)) := by
  rw [plainCallOf?] at h
  split at h
  · rename_i owner method hsplit
    obtain ⟨hnot, hcall⟩ := Option.ite_none_left_eq_some.mp h
    simp only [Bool.or_eq_true, not_or, Bool.not_eq_true, List.isEmpty_eq_false_iff, hasColons,
      Option.isSome_eq_false_iff, Option.isNone_iff_eq_none] at hnot
    obtain ⟨⟨⟨howner, hmethod⟩, hpair⟩, hself⟩ := hnot
    exact .inl ⟨owner, method, hsplit, hpair, howner, hmethod, hself, (Option.some.inj hcall).symm⟩
  · obtain ⟨hnot, hcall⟩ := Option.ite_none_left_eq_some.mp h
    simp only [Bool.or_eq_true, not_or, Bool.not_eq_true, List.isEmpty_eq_false_iff,
      List.contains_eq_mem, decide_eq_false_iff_not] at hnot
    obtain ⟨⟨⟨hne, hcolon⟩, hself⟩, hcontrol⟩ := hnot
    exact .inr ⟨hne, hcolon, hself, hcontrol, (Option.some.inj hcall).symm⟩

variable (hchars : ∀ c ∈ name, isAsciiWord c = true ∨ c = ':')

include hchars

theorem isShaped_of_constructionOf? (h : constructionOf? name = some call) : call.IsShaped := by
  rw [(constructionOf?_eq_some h).2.2, Call.IsShaped, String.toList_ofList]
  refine ⟨fun c hc => hchars c ?_, fun hhead => ?_, fun hlast => ?_⟩
  · exact mem_of_mem_trimBy _ _ hc
  · exact absurd (head?_trimBy (· == ':') name ':' hhead) (by decide)
  · exact absurd (getLast?_trimBy (· == ':') name ':' hlast) (by decide)

theorem isPlain_of_constructionOf?_iff (h : constructionOf? name = some call) :
    call.IsPlain ↔ IsOneWord name := by
  have htrimmed : ∀ c ∈ trimBy (· == ':') name, isAsciiWord c = true ∨ c = ':' :=
    fun c hc => hchars c (mem_of_mem_trimBy _ _ hc)
  rw [isOneWord_iff, ← forall_isAsciiWord_iff htrimmed, (constructionOf?_eq_some h).2.2]
  simp [Call.IsPlain, Call.parts, Call.owner?, Call.name?]

theorem isShaped_of_plainCallOf? (h : plainCallOf? name = some call) : call.IsShaped := by
  rcases plainCallOf?_eq_some h with
    ⟨owner, method, hsplit, hpair, -, -, -, rfl⟩ | ⟨-, hcolon, -, -, rfl⟩
  · obtain ⟨-, hfirst⟩ := splitFirst_eq_some (List.cons_ne_nil _ _) hsplit
    obtain ⟨hownerMem, hmethodMem⟩ := mem_of_splitFirst (List.cons_ne_nil _ _) hsplit
    rw [Call.IsShaped, String.toList_ofList, String.toList_ofList]
    refine ⟨fun c hc => hchars c ?_, hfirst, not_infix_of_splitFirst hpair⟩
    exact (List.mem_append.mp hc).elim (hownerMem c) (hmethodMem c)
  · rw [Call.IsShaped, String.toList_ofList]
    exact (forall_isAsciiWord_iff hchars).mpr hcolon

theorem isPlain_of_plainCallOf?_iff (h : plainCallOf? name = some call) :
    call.IsPlain ↔ IsWordOrPair name := by
  rcases plainCallOf?_eq_some h with
    ⟨owner, method, hsplit, -, -, -, -, rfl⟩ | ⟨-, hcolon, -, -, rfl⟩
  · obtain ⟨hname, -⟩ := splitFirst_eq_some (List.cons_ne_nil _ _) hsplit
    obtain ⟨hownerMem, hmethodMem⟩ := mem_of_splitFirst (List.cons_ne_nil _ _) hsplit
    have howner : ∀ c ∈ owner, isAsciiWord c = true ∨ c = ':' :=
      fun c hc => hchars c (hownerMem c hc)
    have hmethod : ∀ c ∈ method, isAsciiWord c = true ∨ c = ':' :=
      fun c hc => hchars c (hmethodMem c hc)
    have hplain : (Call.method (String.ofList owner) (String.ofList method)).IsPlain ↔
        ':' ∉ owner ∧ ':' ∉ method := by
      rw [← forall_isAsciiWord_iff howner, ← forall_isAsciiWord_iff hmethod]
      simp [Call.IsPlain, Call.parts, Call.owner?, Call.name?]
    rw [hplain]
    constructor
    · rintro ⟨ho, hm⟩
      exact .inr ⟨owner, method, hname, ho, hm⟩
    · rintro (hnone | ⟨owner', method', hname', ho, hm⟩)
      · exact absurd (by rw [hname]; simp) hnone
      · -- the first pair of colons stands behind a word without colons
        have hsplit' : splitFirst colons name = some (owner', method') := by
          rw [hname']
          exact splitFirst_append _ ho method'
        obtain ⟨rfl, rfl⟩ := Prod.mk.inj (Option.some.inj (hsplit.symm.trans hsplit'))
        exact ⟨ho, hm⟩
  · have hplain : (Call.free (String.ofList name)).IsPlain := by
      have hword := (forall_isAsciiWord_iff hchars).mpr hcolon
      simpa [Call.IsPlain, Call.parts, Call.owner?, Call.name?] using hword
    exact ⟨fun _ => .inl hcolon, fun _ => hplain⟩

end

/-! ### from a site to its call -/

theorem isAsciiWord_or_colon_of_mem_sites {before : Option Char} {s : List Char} {site : Site}
    (h : site ∈ sites before s) : ∀ c ∈ site.ownName, isAsciiWord c = true ∨ c = ':' := by
  obtain ⟨front, t, after, -, -, -, -, hname, -⟩ := exists_of_mem_sites h
  intro c hc
  obtain ⟨hmem, hne⟩ := mem_afterLast hc
  have hchar := hname c hmem
  simp only [isNameChar, Bool.or_eq_true, beq_iff_eq] at hchar
  exact hchar.resolve_right hne

theorem isShaped_of_mem_sites {before : Option Char} {s : List Char} {site : Site} {call : Call}
    (h : site ∈ sites before s) (hcall : site.call? = some call) : call.IsShaped := by
  have hchars := isAsciiWord_or_colon_of_mem_sites h
  rw [Site.call?] at hcall
  split at hcall
  · cases hcall
  · exact isShaped_of_constructionOf? hchars hcall
  · exact isShaped_of_plainCallOf? hchars hcall

theorem isPlain_iff_isTidy {before : Option Char} {s : List Char} {site : Site} {call : Call}
    (h : site ∈ sites before s) (hcall : site.call? = some call) :
    call.IsPlain ↔ site.IsTidy := by
  have hchars := isAsciiWord_or_colon_of_mem_sites h
  rw [Site.call?] at hcall
  split at hcall
  · cases hcall
  · rename_i hkeyword
    rw [Site.IsTidy, hkeyword]
    exact isPlain_of_constructionOf?_iff hchars hcall
  · rename_i hkeyword
    rw [Site.IsTidy, hkeyword]
    exact isPlain_of_plainCallOf?_iff hchars hcall

theorem mem_calls_iff {s : List Char} {call : Call} :
    call ∈ calls s ↔ ∃ r ∈ regions s, ∃ site ∈ sites none r, site.call? = some call := by
  rw [mem_calls, callsAsWritten, List.mem_flatMap]
  simp only [List.mem_filterMap]

/-- **The calls that are not plain are those of untidy names**, and colons are all that is wrong
with them. -/
theorem calls_plain_iff (s : List Char) :
    (∀ call ∈ calls s, call.IsShaped) ∧
      ∀ call, (call ∈ calls s ∧ ¬ call.IsPlain) ↔
        ∃ r ∈ regions s, ∃ site ∈ sites none r, site.call? = some call ∧ ¬ site.IsTidy := by
  constructor
  · intro call h
    obtain ⟨r, -, site, hsite, hcall⟩ := mem_calls_iff.mp h
    exact isShaped_of_mem_sites hsite hcall
  · intro call
    constructor
    · rintro ⟨h, hplain⟩
      obtain ⟨r, hr, site, hsite, hcall⟩ := mem_calls_iff.mp h
      exact ⟨r, hr, site, hsite, hcall, mt (isPlain_iff_isTidy hsite hcall).mpr hplain⟩
    · rintro ⟨r, hr, site, hsite, hcall, htidy⟩
      exact ⟨mem_calls_iff.mpr ⟨r, hr, site, hsite, hcall⟩,
        mt (isPlain_iff_isTidy hsite hcall).mp htidy⟩

/-- a third colon goes to the name, a single one and a pair stay in the owner -/
theorem calls_strayColons :
    (Call.method "a" ":b" ∈ calls "<?php a:::b();".toList ∧ ¬ (Call.method "a" ":b").IsPlain) ∧
      (Call.method "x:C" "d" ∈ calls "<?php x:C::d();".toList ∧
        ¬ (Call.method "x:C" "d").IsPlain) ∧
      Call.construction "E::F" ∈ calls "<?php new E::F();".toList ∧
        ¬ (Call.construction "E::F").IsPlain := by
  simp only [mem_calls]
  decide +kernel

end VersionFloor.Source
