import VersionFloor.Proofs.Catalog.Listing
import VersionFloor.Proofs.Catalog.Parse
import VersionFloor.Proofs.Data.Json.Layout

/-!
# Catalogs: one catalog in two formats

Entries that differ in blanks only make the same symbols (`symbols_eq_of_trimmed`), so that it makes
no difference whether they are written as elements or as records, nor whether a field with nothing
in it is written or left out (`parse_agree`).
-/

namespace VersionFloor

open Data Text

/-! ### entries without blanks -/

/-- an extension without a name is absent -/
def ExtensionDraft.trimmed? (e : ExtensionDraft) : Option ExtensionDraft :=
  (e.name.bind nonBlank?).map fun name => ⟨some name, e.version.bind nonBlank?⟩

theorem bind_nonBlank?_bind (s : Option String) :
    (s.bind nonBlank?).bind nonBlank? = s.bind nonBlank? :=
  bind_nonBlank?_of_isTrimmed fun _ => isTrimmed_of_bind

theorem Version.bind_nonBlank?_parse? (s : Option String) :
    (s.bind nonBlank?).bind parse? = s.bind parse? := by
  refine Option.map_injective (fun _ _ => ext_text) ?_
  rw [text_bind_parse?, text_bind_parse?, bind_nonBlank?_bind]

theorem ExtensionDraft.trimmed?_bind (e : ExtensionDraft) :
    e.trimmed?.bind (·.extension?) = e.extension? := by
  rw [trimmed?, extension?]
  cases hname : e.name.bind nonBlank? with
  | none => rfl
  | some name =>
    have hagain : nonBlank? name = some name := nonBlank?_eq_self_iff.mpr (isTrimmed_of_bind hname)
    simp only [Option.map_some, Option.bind_some, extension?, hagain,
      Version.bind_nonBlank?_parse?]

namespace Draft

/-- an entry without its blank fields and without blanks around the others -/
def trimmed (d : Draft) : Draft where
  name := d.name.bind nonBlank?
  owner := d.owner.bind nonBlank?
  version := d.version.bind nonBlank?
  extension := d.extension.bind (·.trimmed?)
  description := d.description.bind nonBlank?

theorem symbol?_trimmed (d : Draft) : d.trimmed.symbol? = d.symbol? := by
  have hextension : (d.extension.bind (·.trimmed?)).bind (·.extension?) =
      d.extension.bind (·.extension?) := by
    rw [Option.bind_assoc]
    simp only [ExtensionDraft.trimmed?_bind]
  simp only [symbol?, trimmed, bind_nonBlank?_bind, Version.bind_nonBlank?_parse?, hextension]

theorem symbolsFrom_trimmed (position : Nat) (ds : List Draft) :
    symbolsFrom position (ds.map trimmed) = symbolsFrom position ds := by
  induction ds generalizing position with
  | nil => rfl
  | cons d ds ih => rw [List.map_cons, symbolsFrom_cons, symbolsFrom_cons, symbol?_trimmed, ih]

theorem symbols_eq_of_trimmed {ds es : List Draft} (h : ds.map trimmed = es.map trimmed) :
    symbols ds = symbols es := by
  rw [symbols, symbols, ← symbolsFrom_trimmed, h, symbolsFrom_trimmed]

end Draft

namespace Format

/-- **The formats agree.**  The same entries, up to fields that are blank in one format and blank or
absent in the other, give the same symbols in the same order or the fault of the same entry, however
they are laid out as elements and as records. -/
theorem parse_agree (l : Markup.Layout) {ds es : List Draft}
    (h : ds.map Draft.trimmed = es.map Draft.trimmed) {text : String}
    (htext : Json.Writes (Listing.listing "minVersion" es) text) :
    (∃ xs, xml.parse (l.text ds) = .ok xs ∧ json.parse text = .ok xs ∧
      List.Forall₂ Draft.Makes ds xs ∧ List.Forall₂ Draft.Makes es xs) ∨
    (∃ i fault, IsLeast (Draft.nameless ds) i ∧
      fault.message = "entry " ++ toString (i + 1) ++ " has no name" ∧
      xml.parse (l.text ds) = .error fault ∧ json.parse text = .error fault) := by
  have hkey : "minVersion" ∈ Listing.versionNames := by decide
  have hsymbols := Draft.symbols_eq_of_trimmed h
  have hxml := xml_parse_text l ds
  have hjson := json_parse_of_drafts? (Listing.drafts?_listing hkey es) htext
  rw [← hsymbols] at hjson
  rcases Draft.symbols_cases ds with ⟨xs, hxs, hmakes⟩ | ⟨i, hleast, herror⟩
  · have hmakes' := (Draft.symbols_eq_ok_iff es xs).mp (hsymbols.symm.trans hxs)
    exact .inl ⟨xs, hxml.trans hxs, hjson.trans hxs, hmakes, hmakes'⟩
  · exact .inr ⟨i, .nameless (i + 1), hleast, rfl, hxml.trans herror, hjson.trans herror⟩

/-- a class, and a version of the extension, that are there but blank -/
def blankDraft : Draft :=
  ⟨some " f ", some "", some "0", some ⟨some "zip", some " "⟩, some "a < b & \"c\""⟩

def bareDraft : Draft :=
  ⟨some "f", none, some "0", some ⟨some "zip", none⟩, some "a < b & \"c\""⟩

theorem parse_agree_blank :
    [blankDraft].map Draft.trimmed = [bareDraft].map Draft.trimmed ∧
      ∃ x, xml.parse (Markup.Layout.lines.text [blankDraft]) = .ok [x] ∧
        json.parse (Json.pretty (Listing.listing "minVersion" [bareDraft])) = .ok [x] ∧
        x.name = "f" ∧ x.owner = none := by
  have htrimmed : [blankDraft].map Draft.trimmed = [bareDraft].map Draft.trimmed := by
    decide +kernel
  have hkey : "minVersion" ∈ Listing.versionNames := by decide
  have htext := Json.writes_pretty (Listing.fits_listing hkey 124 [bareDraft])
  refine ⟨htrimmed, ?_⟩
  rcases parse_agree .lines htrimmed htext with ⟨xs, hxml, hjson, -, hmakes⟩ | ⟨i, _, hleast, -⟩
  · obtain ⟨x, _, hx, hnil, rfl⟩ := List.forall₂_cons_left_iff.mp hmakes
    cases hnil
    have hname : nonBlank? "f" = some x.name := hx.name
    exact ⟨x, hxml, hjson, (Option.some.inj hname).symm, hx.owner.symm⟩
  · obtain ⟨⟨d, hd, hnameless⟩, -⟩ := hleast
    obtain rfl := List.mem_singleton.mp (List.mem_of_getElem? hd)
    exact absurd ⟨" f ", rfl, by decide +kernel⟩ hnameless

end Format

end VersionFloor
