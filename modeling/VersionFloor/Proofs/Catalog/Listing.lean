import VersionFloor.Proofs.Catalog.Spelling

/-!
# Catalogs: entries as plain data

An entry is written with the fields that it has, one after the other; that is one of the ways to
give it (`givesEntry_value`), so that the reader finds exactly these fields again
(`drafts?_listing`), whatever spelling the key of the version has.
-/

namespace VersionFloor

open Data

def ExtensionDraft.value (versionKey : String) (e : ExtensionDraft) : Value :=
  .record <|
    Fields.given "name" (e.name.map .text) ++
    Fields.given versionKey (e.version.map .text)

def Draft.value (versionKey : String) (d : Draft) : Value :=
  .record <|
    Fields.given "name" (d.name.map .text) ++
    Fields.given "owner" (d.owner.map .text) ++
    Fields.given versionKey (d.version.map .text) ++
    Fields.given "extension" (d.extension.map (·.value versionKey)) ++
    Fields.given "description" (d.description.map .text)

namespace Listing

def listing (versionKey : String) (ds : List Draft) : Value := .list (ds.map (·.value versionKey))

def wrappedListing (versionKey : String) (ds : List Draft) : Value :=
  .record (Fields.one "functions" (listing versionKey ds))

/-! ### fields that are there -/

theorem isOther_of_nil (free : Value → Prop) (names : List (List String)) :
    ∀ f ∈ ([] : List (Value × Value)), IsOther names f.1 ∧ free f.2 :=
  fun _ hf => (by cases hf)

/-- a field that is left out when it is absent -/
theorem givesFields_given {α : Type} {gives : α → Value → Prop} {value : α → Value}
    (hvalue : ∀ a, gives a (value a)) {spellings : List String} {key : String}
    (hkey : key ∈ spellings) (a : Option α) {names : List (List String)}
    {row : List (Value → Prop)} {fs : List (Value × Value)} (hrest : GivesFields names row fs) :
    GivesFields (spellings :: names) (GivesItem gives a :: row)
      (Fields.given key (a.map value) ++ fs) := by
  cases a with
  | none => exact .absent rfl hrest
  | some a => exact .given hkey (hvalue a) hrest

theorem gives_of_givesFields (free : Value → Prop) {names : List (List String)}
    {row : List (Value → Prop)} {fs : List (Value × Value)} (h : GivesFields names row fs) :
    Gives free names row (.record fs) :=
  .record h (isOther_of_nil free names) (by rw [List.append_nil])

section

variable (free : Value → Prop) {versionKey : String} (hkey : versionKey ∈ versionNames)

include hkey

theorem givesExtension_value (e : ExtensionDraft) :
    GivesExtension free e (e.value versionKey) := by
  have hversion := givesFields_given (givesVersion_text free) hkey
    e.version .nil
  have hname := givesFields_given givesText_text
    (List.mem_singleton_self "name") e.name hversion
  rw [List.append_nil] at hname
  exact gives_of_givesFields free hname

theorem givesEntry_value (d : Draft) : GivesEntry free d (d.value versionKey) := by
  have hdescription := givesFields_given givesText_text
    (List.mem_singleton_self "description") d.description .nil
  have hextension := givesFields_given (givesExtension_value free hkey)
    (List.mem_singleton_self "extension") d.extension hdescription
  have hversion := givesFields_given (givesVersion_text free) hkey
    d.version hextension
  have howner := givesFields_given givesText_text
    (List.mem_cons_self (a := "owner") (l := ["class"])) d.owner hversion
  have hname := givesFields_given givesText_text
    (List.mem_singleton_self "name") d.name howner
  simp only [← List.append_assoc, List.append_nil] at hname
  exact gives_of_givesFields free hname

theorem givesEntry_values (ds : List Draft) :
    List.Forall₂ (GivesEntry free) ds (ds.map (·.value versionKey)) := by
  rw [List.forall₂_map_right_iff, List.forall₂_same]
  exact fun d _ => givesEntry_value free hkey d

theorem givesListing_listing (ds : List Draft) : GivesListing free ds (listing versionKey ds) :=
  .bare (givesEntry_values free hkey ds)

theorem givesListing_wrappedListing (ds : List Draft) :
    GivesListing free ds (wrappedListing versionKey ds) :=
  .wrapped (givesEntry_values free hkey ds) (isOther_of_nil free _) (.refl _)

omit free

theorem drafts?_listing (ds : List Draft) : drafts? (listing versionKey ds) = some ds :=
  drafts?_of_gives (givesListing_listing IsLeaf hkey ds)

theorem drafts?_wrappedListing (ds : List Draft) :
    drafts? (wrappedListing versionKey ds) = some ds :=
  drafts?_of_gives (givesListing_wrappedListing IsLeaf hkey ds)

theorem fits_listing (room : Nat) (ds : List Draft) :
    Json.fits (room + 3) (listing versionKey ds) = true :=
  fits_list_of_gives (givesEntry_values IsLeaf hkey ds)

theorem fits_wrappedListing (room : Nat) (ds : List Draft) :
    Json.fits (room + 4) (wrappedListing versionKey ds) = true :=
  fits_of_givesListing room (givesListing_wrappedListing IsLeaf hkey ds)

end

end Listing

end VersionFloor
