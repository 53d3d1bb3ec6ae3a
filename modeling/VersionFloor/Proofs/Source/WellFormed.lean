import Mathlib.Data.List.Nodup
import VersionFloor.Proofs.Report.Same
import VersionFloor.Proofs.Source.Colons
import VersionFloor.Proofs.Source.Outline
import VersionFloor.Proofs.Text.Case

/-!
# Source: what calls are made of

A call has the parts of its kind, none of them empty or with a namespace in it, and none that is a
word with another meaning in its place.  That holds of every call of every text; the calls stand in
ascending order, so no two of them have the same parts (`calls_wellFormed`).
-/

namespace VersionFloor.Source

open Text

/-! ### words with another meaning -/

/-- words that are written in small ASCII letters -/
def IsSmall (words : List String) : Prop :=
  ∀ w ∈ words, lower w = w ∧ ∀ c ∈ w.toList, isAscii c = true

theorem isSmall_of_all {words : List String}
    (h : words.all (fun w => lower w == w && w.toList.all isAscii) = true) : IsSmall words := by
  intro w hw
  have hboth := List.all_eq_true.mp h w hw
  rw [Bool.and_eq_true, beq_iff_eq, List.all_eq_true] at hboth
  exact hboth

theorem isSmall_selfWords : IsSmall selfWords := isSmall_of_all (by decide +kernel)

theorem isSmall_controlWords : IsSmall controlWords := isSmall_of_all (by decide +kernel)

/-- an ASCII text is one of these words up to case when its lower case is -/
theorem any_sameAscii_iff {words : List String} (hwords : IsSmall words) {s : String}
    (hs : ∀ c ∈ s.toList, isAscii c = true) :
    words.any (sameAscii · s) = true ↔ lower s ∈ words := by
  rw [List.any_eq_true]
  constructor
  · rintro ⟨w, hw, hsame⟩
    have hlower : lower w = lower s := lower_eq_of_sameAscii hsame
    rw [← hlower, (hwords w hw).1]
    exact hw
  · intro hmem
    obtain ⟨hsmall, hascii⟩ := hwords _ hmem
    exact ⟨lower s, hmem, sameAscii_of_lower_eq hascii hs hsmall⟩

section

variable {s : List Char} (hs : ∀ c ∈ s, isAscii c = true)

include hs

theorem lower_notMem_selfWords (h : isSelf s = false) :
    lower (String.ofList s) ∉ selfWords := by
  rw [← any_sameAscii_iff isSmall_selfWords (by rwa [String.toList_ofList])]
  exact Bool.eq_false_iff.mp h

theorem lower_notMem_controlWords (h : isControl s = false) :
    lower (String.ofList s) ∉ controlWords := by
  rw [← any_sameAscii_iff isSmall_controlWords (by rwa [String.toList_ofList])]
  exact Bool.eq_false_iff.mp h

end

/-! ### calls -/

namespace Call

/-- What holds of every call that is read. -/
structure WellFormed (call : Call) : Prop where
  free : (∃ name, call = .free name) ↔ call.owner? = none ∧ call.name?.isSome = true
  method : (∃ owner name, call = .method owner name) ↔
    call.owner?.isSome = true ∧ call.name?.isSome = true
  construction : (∃ owner, call = .construction owner) ↔
    call.owner?.isSome = true ∧ call.name? = none
  parts : ∀ part ∈ call.parts, part ≠ "" ∧ '\\' ∉ part.toList
  /-- no owner means the class around the call -/
  owner : ∀ owner ∈ call.owner?, lower owner ∉ selfWords
  /-- a name that stands alone is a word of its own -/
  name : call.owner? = none → ∀ name ∈ call.name?,
    lower name ∉ selfWords ∧ lower name ∉ controlWords ∧ ':' ∉ name.toList

end Call

/-- a part of a call that is made of these characters -/
theorem part_of_chars {s : List Char} (hne : s ≠ [])
    (hchars : ∀ c ∈ s, isAsciiWord c = true ∨ c = ':') :
    String.ofList s ≠ "" ∧ '\\' ∉ (String.ofList s).toList := by
  rw [String.toList_ofList]
  refine ⟨fun h => hne ?_, fun h => ?_⟩
  · have hlist := congrArg String.toList h
    rwa [String.toList_ofList] at hlist
  · rcases hchars _ h with hword | hcolon
    · exact absurd hword (by decide)
    · exact absurd hcolon (by decide)

theorem isAscii_of_isAsciiWord_or_colon {c : Char} (h : isAsciiWord c = true ∨ c = ':') :
    isAscii c = true := by
  rcases h with h | rfl
  · exact isAscii_of_isNameChar (isNameChar_of_isAsciiWord h)
  · decide

section

variable {name : List Char} {call : Call} (hchars : ∀ c ∈ name, isAsciiWord c = true ∨ c = ':')

include hchars

theorem wellFormed_of_constructionOf? (h : constructionOf? name = some call) :
    call.WellFormed := by
  obtain ⟨hne, hself, rfl⟩ := constructionOf?_eq_some h
  have howner : ∀ c ∈ trimBy (· == ':') name, isAsciiWord c = true ∨ c = ':' :=
    fun c hc => hchars c (mem_of_mem_trimBy _ _ hc)
  have hascii := fun c hc => isAscii_of_isAsciiWord_or_colon (howner c hc)
  exact
    { free := by simp [Call.owner?]
      method := by simp [Call.name?]
      construction := by simp [Call.owner?, Call.name?]
      parts := fun part hpart => by
        rw [List.mem_singleton.mp hpart]
        exact part_of_chars hne howner
      owner := fun owner ho => by
        rw [← Option.some.inj ho]
        exact lower_notMem_selfWords hascii hself
      name := fun h => by cases h }

theorem wellFormed_of_plainCallOf? (h : plainCallOf? name = some call) : call.WellFormed := by
  rcases plainCallOf?_eq_some h with
    ⟨owner, method, hsplit, -, howner, hmethod, hself, rfl⟩ | ⟨hne, hcolon, hself, hcontrol, rfl⟩
  · obtain ⟨hownerMem, hmethodMem⟩ := mem_of_splitFirst (List.cons_ne_nil _ _) hsplit
    have hofOwner : ∀ c ∈ owner, isAsciiWord c = true ∨ c = ':' :=
      fun c hc => hchars c (hownerMem c hc)
    have hofMethod : ∀ c ∈ method, isAsciiWord c = true ∨ c = ':' :=
      fun c hc => hchars c (hmethodMem c hc)
    have hascii := fun c hc => isAscii_of_isAsciiWord_or_colon (hofOwner c hc)
    exact
      { free := by simp [Call.owner?]
        method := by simp [Call.owner?, Call.name?]
        construction := by simp [Call.name?]
        parts := fun part hpart => by
          rcases List.mem_cons.mp hpart with rfl | hpart
          · exact part_of_chars howner hofOwner
          · rw [List.mem_singleton.mp hpart]
            exact part_of_chars hmethod hofMethod
        owner := fun owner ho => by
          rw [← Option.some.inj ho]
          exact lower_notMem_selfWords hascii hself
        name := fun h => by cases h }
  · have hascii := fun c hc => isAscii_of_isAsciiWord_or_colon (hchars c hc)
    exact
      { free := by simp [Call.owner?, Call.name?]
        method := by simp [Call.owner?]
        construction := by simp [Call.owner?]
        parts := fun part hpart => by
          rw [List.mem_singleton.mp hpart]
          exact part_of_chars hne hchars
        owner := fun _ h => by cases h
        name := fun _ part hpart => by
          rw [← Option.some.inj hpart, String.toList_ofList]
          exact ⟨lower_notMem_selfWords hascii hself, lower_notMem_controlWords hascii hcontrol,
            hcolon⟩ }

end

theorem wellFormed_of_mem_sites {before : Option Char} {s : List Char} {site : Site} {call : Call}
    (h : site ∈ sites before s) (hcall : site.call? = some call) : call.WellFormed := by
  have hchars := isAsciiWord_or_colon_of_mem_sites h
  rw [Site.call?] at hcall
  split at hcall
  · cases hcall
  · exact wellFormed_of_constructionOf? hchars hcall
  · exact wellFormed_of_plainCallOf? hchars hcall

/-! ### the order of calls -/

namespace Call

theorem compareParts_eq_compare : compareParts = compare := by
  funext a b
  cases a <;> cases b <;> rfl

theorem order_eq_compareLex : order = compareLex (compareOn owner?) (compareOn name?) := by
  funext a b
  rw [order, compareParts_eq_compare]
  rfl

instance : Std.TransCmp order := by
  rw [order_eq_compareLex]
  infer_instance

/-- calls with the same parts are of the same kind -/
theorem eq_of_parts {a b : Call} (howner : a.owner? = b.owner?) (hname : a.name? = b.name?) :
    a = b := by
  cases a <;> cases b <;> simp_all [owner?, name?]

theorem eq_of_order {a b : Call} (h : a.order b = .eq) : a = b := by
  rw [order_eq_compareLex] at h
  obtain ⟨howner, hname⟩ := Ordering.then_eq_eq.mp h
  exact eq_of_parts (Std.LawfulEqCmp.eq_of_compare howner) (Std.LawfulEqCmp.eq_of_compare hname)

end Call

/-- the calls of a text ascend, by owner and then by name -/
theorem pairwise_calls (s : List Char) : (calls s).Pairwise fun a b => a.order b = .lt := by
  have hsorted : (calls s).Pairwise fun a b => a.order b ≠ .gt := pairwise_mergeSort_bne_gt _
  refine hsorted.imp₂ (fun a b hle hne => ?_) (nodup_calls s)
  cases horder : a.order b with
  | lt => rfl
  | eq => exact absurd (Call.eq_of_order horder) hne
  | gt => exact absurd horder hle

/-- **Every call that is read is well-formed, and each pair of an owner and a name comes once**,
whatever the text is. -/
theorem calls_wellFormed (s : List Char) :
    (∀ call ∈ calls s, call.WellFormed) ∧
      (calls s).Pairwise (fun a b => a.order b = .lt) ∧
        ((calls s).map fun call => (call.owner?, call.name?)).Nodup := by
  refine ⟨fun call h => ?_, pairwise_calls s, (nodup_calls s).map_on fun a _ b _ h => ?_⟩
  · obtain ⟨r, -, site, hsite, hcall⟩ := mem_calls_iff.mp h
    exact wellFormed_of_mem_sites hsite hcall
  · obtain ⟨howner, hname⟩ := Prod.mk.inj h
    exact Call.eq_of_parts howner hname

/-- a namespace and colons hide a word with another meaning in some places only -/
example :
    calls "<?php new \\x\\::Self::(); y\\Return(); A\\STATIC::b(); :static::if();".toList =
      [.method ":static" "if"] := by
  decide +kernel

end VersionFloor.Source
