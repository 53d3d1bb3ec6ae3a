import VersionFloor.Proofs.Source.Occurrence
import VersionFloor.Proofs.Source.Seam

/-!
# Source: the opening tag in a scan

A region starts with its tag, and a scan reads the letters of the tag like those of a name.  They
name nothing as long as no arguments follow: then the calls are those behind an empty statement.
Where arguments do follow, the letters are taken for a free call, and what stands in these arguments
is lost (`calls_openTag`).
-/

namespace VersionFloor.Source

open Text

/-! ### arguments behind the tag -/

/-- the text begins with arguments that hold no closing tag -/
def BeginsWithArguments (body : List Char) : Prop :=
  ∃ (a : Arguments) (behind : List Char), body = a.text ++ behind ∧ ¬ closeTag <:+: a.inside

theorem takeBody_arguments {a : Arguments} (h : ¬ closeTag <:+: a.inside) (behind : List Char) :
    takeBody (a.text ++ behind) = (a.text ++ (takeBody behind).1, (takeBody behind).2) :=
  Statement.passes_arguments h behind

/-- arguments that begin a region end before its closing tag -/
theorem untagged_of_takeBody {body after : List Char} {a : Arguments}
    (h : (takeBody body).1 = a.text ++ after) : ¬ closeTag <:+: a.inside := by
  rintro ⟨front, back, hinside⟩
  have htext : (takeBody body).1 = (a.before.chars ++ '(' :: front) ++
      (closeTag ++ (back ++ ')' :: (a.behind.chars ++ ';' :: after))) := by
    rw [h, Arguments.text_append, Arguments.opened, ← hinside]
    simp
  have hnil := takeBody_closes body _ _ htext
  exact absurd hnil (List.append_ne_nil_of_right_ne_nil _ (List.cons_ne_nil _ _))

/-- whether arguments follow can be read off the region -/
theorem beginsWithArguments_iff {body : List Char} :
    BeginsWithArguments body ↔ (afterArguments? (takeBody body).1).isSome = true := by
  constructor
  · rintro ⟨a, behind, rfl, huntagged⟩
    rw [takeBody_arguments huntagged, a.afterArguments?_text]
    rfl
  · intro h
    obtain ⟨after, hafter⟩ := Option.isSome_iff_exists.mp h
    obtain ⟨a, ha⟩ := exists_of_afterArguments? hafter
    refine ⟨a, after ++ (takeBody body).2, ?_, untagged_of_takeBody ha⟩
    rw [← List.append_assoc, ← ha, takeBody_append]

instance (body : List Char) : Decidable (BeginsWithArguments body) :=
  decidable_of_iff _ beginsWithArguments_iff.symm

/-! ### the scan of a region -/

/-- the two marks of the tag start no site -/
theorem sites_marks (s : List Char) : sites none ('<' :: '?' :: s) = sites (some '?') s := by
  have hmark (before : Option Char) {c : Char} (more : List Char) (hname : isNameChar c = false)
      (hc : ∀ k : Keyword, startsSame k.text (c :: more) = false) :
      sites before (c :: more) = sites (some c) more :=
    sites_of_none ((takeSite_of_unmarked hc before).trans
      (takeNamed_eq_none_of_head hname none more))
  rw [hmark none ('?' :: s) (by decide) fun k => by cases k <;> rfl]
  exact hmark (some '<') s (by decide) fun k => by cases k <;> rfl

/-- **The letters of the tag are a site** when arguments follow them. -/
theorem sites_openTag_arguments (a : Arguments) (rest : List Char) :
    sites none (openTag ++ (a.text ++ rest)) =
      ⟨none, "php".toList⟩ :: sites (some ';') rest := by
  have hname : ∀ c ∈ 'p' :: "hp".toList, isNameChar c = true := List.all_eq_true.mp (by decide)
  show sites none ('<' :: '?' :: ('p' :: ("hp".toList ++ (a.text ++ rest)))) = _
  rw [sites_marks, sites_of_some (takeSite_name hname (some '?') a rest)]
  rfl

/-- without arguments the tag is passed like an empty statement -/
theorem sites_openTag_blank {b : Char} (hb : isBlank b = true) {s : List Char}
    (h : afterArguments? (b :: s) = none) :
    sites none (openTag ++ b :: s) = sites none (openTag ++ ';' :: b :: s) := by
  have hname : (b :: s).dropWhile isNameChar = b :: s :=
    List.dropWhile_cons_of_neg (by rw [isNameChar_of_isBlank hb]; decide)
  rw [Script.sites_openTag hname h, sites_openTag_semicolon, sites_blank _ hb, sites_blank _ hb]

/-! ### the calls of a file -/

theorem callsAsWritten_openTag_blank {b : Char} (hb : isBlank b = true) {s : List Char}
    (h : ¬ BeginsWithArguments (b :: s)) :
    callsAsWritten (openTag ++ b :: s) = callsAsWritten (openTag ++ ';' :: b :: s) := by
  have hnone : afterArguments? (takeBody (b :: s)).1 = none := by
    rw [beginsWithArguments_iff, Bool.not_eq_true, Option.isSome_eq_false_iff,
      Option.isNone_iff_eq_none] at h
    exact h
  have hblank : b ≠ '?' := by
    rintro rfl
    exact absurd hb (by decide)
  have hsemicolon : Passes [';'] := passes_of_not_mem (by decide)
  have hempty : Passes [] := passes_of_not_mem (by decide)
  have hleft := callsAsWritten_openTag hempty (b :: s)
  have hright := callsAsWritten_openTag hsemicolon (b :: s)
  simp only [List.nil_append, List.cons_append] at hleft hright
  rw [takeBody_cons (.inl hblank)] at hnone hleft hright
  rw [hleft, hright, sites_openTag_blank hb hnone]

theorem callsAsWritten_openTag_arguments {a : Arguments} (h : ¬ closeTag <:+: a.inside)
    (behind : List Char) :
    callsAsWritten (openTag ++ (a.text ++ behind)) =
      .free "php" :: callsAsWritten (openTag ++ ';' :: behind) := by
  have hsemicolon : Passes [';'] := passes_of_not_mem (by decide)
  have hright := callsAsWritten_openTag hsemicolon behind
  simp only [List.nil_append, List.cons_append] at hright
  have hcall : Site.call? ⟨none, "php".toList⟩ = some (.free "php") := by decide
  rw [callsAsWritten_openTag (Statement.passes_arguments h), hright, sites_openTag_arguments,
    sites_openTag_semicolon, List.filterMap_cons_some hcall, List.cons_append]

/-- **Behind the opening tag, an empty statement changes something only where arguments follow**,
and there the tag itself is taken for a call. -/
theorem calls_openTag {b : Char} (hb : isBlank b = true) (s : List Char) :
    (¬ BeginsWithArguments (b :: s) →
      calls (openTag ++ b :: s) = calls (openTag ++ ';' :: b :: s)) ∧
    ∀ (a : Arguments) (behind : List Char), ¬ closeTag <:+: a.inside →
      b :: s = a.text ++ behind → ∀ call, call ∈ calls (openTag ++ b :: s) ↔
        call = .free "php" ∨ call ∈ calls (openTag ++ ';' :: behind) := by
  constructor
  · intro h
    rw [calls, calls, callsAsWritten_openTag_blank hb h]
  · intro a behind huntagged htext call
    rw [htext, mem_calls, mem_calls, callsAsWritten_openTag_arguments huntagged, List.mem_cons]

/-- parentheses that the closing tag cuts off, and some that are arguments -/
theorem calls_openTag_cut :
    let cut := "( 1 ?>) ; <?php g();".toList
    let a : Arguments := ⟨.ofString "\n" rfl, "f($x".toList, by decide, .ofString " " rfl⟩
    calls (openTag ++ '\n' :: cut) = calls (openTag ++ ';' :: '\n' :: cut) ∧
      Call.free "g" ∈ calls (openTag ++ '\n' :: cut) ∧ ¬ closeTag <:+: a.inside ∧
      (Call.free "f" ∈ calls (openTag ++ '\n' :: "(f($x) ; g();".toList) ↔
        Call.free "f" = .free "php" ∨ Call.free "f" ∈ calls (openTag ++ ';' :: " g();".toList)) := by
  intro cut a
  have hblank : isBlank '\n' = true := by decide
  have huntagged : ¬ closeTag <:+: a.inside := by decide
  have hcut := (calls_openTag hblank cut).1 (by decide +kernel)
  have harguments := (calls_openTag hblank "(f($x) ; g();".toList).2 a " g();".toList huntagged rfl
  refine ⟨hcut, ?_, huntagged, harguments _⟩
  rw [mem_calls]
  decide +kernel

/-- the tag is a call, and the call in the arguments is none -/
theorem calls_tag :
    calls "<?php (f($x);".toList = [.free "php"] ∧ calls "<?php; (f($x);".toList = [.free "f"] := by
  decide +kernel

end VersionFloor.Source
