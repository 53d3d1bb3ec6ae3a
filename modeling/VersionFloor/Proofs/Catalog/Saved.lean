import VersionFloor.Catalog.Saved
import VersionFloor.Proofs.Catalog.Listing
import VersionFloor.Proofs.Catalog.Parse
import VersionFloor.Proofs.Data.Json.Layout

/-!
# Catalogs: saving one and reading it again

A symbol is saved as an entry whose texts are those of the symbol; since symbols that have been read
hold no blank texts and none with blanks around them, nothing is lost on the way back
(`parse_saved`).
-/

namespace VersionFloor

open Data Text

/-! ### symbols as entries -/

def Extension.draft (e : Extension) : ExtensionDraft := ⟨some e.name, e.minVersion.map Version.text⟩

namespace Symbol

/-- the entry that a symbol is saved as -/
def draft (x : Symbol) : Draft where
  name := some x.name
  owner := x.owner
  version := x.minVersion.map Version.text
  extension := x.extension.map (·.draft)
  description := x.description

theorem draft_extension_value (e : Extension) : e.draft.value "min_version" = e.value := by
  simp only [ExtensionDraft.value, Extension.draft, Extension.value, Option.map_map,
    Function.comp_def]
  rfl

theorem draft_value (x : Symbol) : x.draft.value "min_version" = x.value := by
  simp only [Draft.value, draft, value, Option.map_map, Function.comp_def, draft_extension_value]
  rfl

theorem listing_eq (xs : List Symbol) :
    listing xs = Listing.listing "min_version" (xs.map draft) := by
  rw [listing, Listing.listing, List.map_map]
  congr 1
  exact List.map_congr_left fun x _ => (draft_value x).symm

theorem wrappedListing_eq (xs : List Symbol) :
    wrappedListing xs = Listing.wrappedListing "min_version" (xs.map draft) := by
  rw [wrappedListing, Listing.wrappedListing, listing_eq]

/-- a version is written without blanks around it, so that nothing is trimmed off -/
theorem bind_nonBlank?_version (v : Option Version) :
    (v.map Version.text).bind nonBlank? = v.map Version.text := by
  cases v with
  | none => rfl
  | some v =>
    rw [Option.map_some, Option.bind_some]
    exact v.written

/-- the entry of a symbol makes the symbol again -/
theorem Normal.makes {x : Symbol} (h : x.Normal) : x.draft.Makes x where
  name := by
    rw [draft, Option.bind_some]
    exact nonBlank?_eq_self_iff.mpr h.name
  owner := bind_nonBlank?_of_isTrimmed h.owner
  version := bind_nonBlank?_version x.minVersion
  extension := by
    show (x.extension.map (·.draft)).bind _ = _
    cases he : x.extension with
    | none => rfl
    | some e =>
      rw [Option.map_some, Option.map_some, Option.bind_some, Extension.draft, Option.bind_some]
      exact nonBlank?_eq_self_iff.mpr (h.extension e he)
  extensionVersion e he := by
    show (x.extension.map (·.draft)).bind _ = _
    rw [he]
    exact bind_nonBlank?_version e.minVersion
  description := bind_nonBlank?_of_isTrimmed h.description

theorem symbols_draft {xs : List Symbol} (h : ∀ x ∈ xs, x.Normal) :
    Draft.symbols (xs.map draft) = .ok xs := by
  rw [Draft.symbols_eq_ok_iff, List.forall₂_map_left_iff, List.forall₂_same]
  exact fun x hx => (h x hx).makes

end Symbol

/-! ### texts -/

namespace Format

/-- **What has been read can be saved and read again**, as a list or as a record that holds it,
with one item on a line, without blanks or in any other layout. -/
theorem parse_saved {f : Format} {s : String} {xs : List Symbol} (h : f.parse s = .ok xs)
    {v : Value} (hv : v = Symbol.listing xs ∨ v = Symbol.wrappedListing xs) :
    json.parse (Json.pretty v) = .ok xs ∧ json.parse (Json.compact v) = .ok xs ∧
      ∀ text, Json.Writes v text → json.parse text = .ok xs := by
  have hkey : "min_version" ∈ Listing.versionNames := by decide
  have hsymbols := Symbol.symbols_draft (normal_of_parse h)
  have hdrafts : Listing.drafts? v = some (xs.map Symbol.draft) ∧
      Json.fits Json.depthLimit v = true := by
    rcases hv with rfl | rfl
    · rw [Symbol.listing_eq]
      exact ⟨Listing.drafts?_listing hkey _, Listing.fits_listing hkey 124 _⟩
    · rw [Symbol.wrappedListing_eq]
      exact ⟨Listing.drafts?_wrappedListing hkey _, Listing.fits_wrappedListing hkey 123 _⟩
  obtain ⟨hread, hfits⟩ := hdrafts
  have hparse (text : String) (hwrites : Json.Writes v text) : json.parse text = .ok xs := by
    rw [json_parse_of_drafts? hread hwrites, hsymbols]
  exact ⟨hparse _ (Json.writes_pretty hfits), hparse _ (Json.writes_compact hfits), hparse⟩

/-- an entry with blanks around its texts and with characters that JSON escapes -/
def paddedDraft : Draft :=
  ⟨some " a\"\\<\n", none, some "5.3 ", some ⟨some "zip", some " "⟩, none⟩

theorem parse_saved_padded :
    ∃ x, xml.parse (Markup.Layout.lines.text [paddedDraft]) = .ok [x] ∧ x.name = "a\"\\<" ∧
      json.parse (Json.pretty (Symbol.listing [x])) = .ok [x] ∧
      json.parse (Json.compact (Symbol.wrappedListing [x])) = .ok [x] := by
  let x : Symbol := (Symbol.free "a\"\\<" (some "5.3")).inExtension "zip" none
  have hsymbols : Draft.symbols [paddedDraft] = .ok [x] := by decide +kernel
  have hx := (xml_parse_text .lines [paddedDraft]).trans hsymbols
  exact ⟨x, hx, rfl, (parse_saved hx (.inl rfl)).1, (parse_saved hx (.inr rfl)).2.1⟩

end Format

end VersionFloor
