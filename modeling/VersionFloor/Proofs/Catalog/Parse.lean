import VersionFloor.Proofs.Catalog.Draft
import VersionFloor.Proofs.Catalog.Entries
import VersionFloor.Proofs.Catalog.Markup
import VersionFloor.Proofs.Data.Json.Value

/-!
# Catalogs: what a document is read as

Either every entry gives its symbol, with no blank text left in it, or there are no symbols at all
and the fault names the first entry that has no name (`parse_all_or_nothing`).
-/

namespace VersionFloor.Format

open Data Text

theorem parse_of_drafts {f : Format} {s : String} {ds : List Draft} (h : f.drafts s = .ok ds) :
    f.parse s = Draft.symbols ds := by
  rw [parse, h]
  rfl

theorem xml_parse_text (l : Markup.Layout) (ds : List Draft) :
    xml.parse (l.text ds) = Draft.symbols ds := by
  refine parse_of_drafts ?_
  show Markup.drafts (l.text ds) = .ok ds
  exact Markup.drafts_text l ds

/-- a JSON text is read as the entries of its value -/
theorem json_parse_of_read? {v : Value} {ds : List Draft} (h : Listing.drafts? v = some ds)
    {text : String} (hread : Json.read? text = some v) : json.parse text = Draft.symbols ds := by
  refine parse_of_drafts ?_
  show jsonDrafts text = .ok ds
  rw [jsonDrafts, hread]
  dsimp only
  rw [draftsOfValue, h]

theorem json_parse_of_drafts? {v : Value} {ds : List Draft} (h : Listing.drafts? v = some ds)
    {text : String} (hwrites : Json.Writes v text) : json.parse text = Draft.symbols ds :=
  json_parse_of_read? h (Json.read?_of_writes hwrites)

theorem parse_eq_ok_iff {f : Format} {s : String} {xs : List Symbol} :
    f.parse s = .ok xs ↔ ∃ ds, f.drafts s = .ok ds ∧ List.Forall₂ Draft.Makes ds xs := by
  simp only [← Draft.symbols_eq_ok_iff]
  exact bind_eq_ok

theorem normal_of_forall₂ {ds : List Draft} {xs : List Symbol}
    (h : List.Forall₂ Draft.Makes ds xs) : ∀ x ∈ xs, x.Normal := by
  induction h with
  | nil => exact fun _ hx => (by cases hx)
  | cons hmakes _ ih =>
    intro x hx
    rcases List.mem_cons.mp hx with rfl | hx
    · exact hmakes.normal
    · exact ih x hx

theorem normal_of_parse {f : Format} {s : String} {xs : List Symbol} (h : f.parse s = .ok xs) :
    ∀ x ∈ xs, x.Normal := by
  obtain ⟨_, _, hmakes⟩ := parse_eq_ok_iff.mp h
  exact normal_of_forall₂ hmakes

theorem exists_symbols_iff (ds : List Draft) :
    (∃ xs, Draft.symbols ds = .ok xs) ↔ ∀ d ∈ ds, d.IsNamed := by
  refine ⟨?_, Draft.exists_symbols⟩
  rintro ⟨xs, hxs⟩
  have hmakes := (Draft.symbols_eq_ok_iff ds xs).mp hxs
  intro d hd
  obtain ⟨i, hi, rfl⟩ := List.getElem_of_mem hd
  have hlen : i < xs.length := hmakes.length_eq ▸ hi
  exact Draft.isNamed_iff _ |>.mpr ⟨_, Draft.makes_iff.mp (hmakes.get hi hlen)⟩

/-- **All symbols or none.**  A document that is read gives one symbol for each of its entries, in
their order, made of trimmed texts that are not blank.  A document that is decoded but has an entry
without a name gives the position of the first such entry and no symbols. -/
theorem parse_all_or_nothing (f : Format) (s : String) :
    (∀ xs, f.parse s = .ok xs →
      ∃ ds, (f.entries s).map Entry.draft? = ds.map some ∧ List.Forall₂ Draft.Makes ds xs ∧
        ∀ x ∈ xs, x.Normal) ∧
    (∀ ds, f.drafts s = .ok ds →
      (f.entries s).map Entry.draft? = ds.map some ∧
      ((∃ xs, f.parse s = .ok xs) ↔ ∀ d ∈ ds, d.IsNamed) ∧
      ((∃ d ∈ ds, ¬ d.IsNamed) → ∃ i, IsLeast (Draft.nameless ds) i ∧
        f.parse s = .error (.nameless (i + 1)) ∧
        (f.parse s).mapError CatalogFault.message =
          .error ("entry " ++ toString (i + 1) ++ " has no name"))) := by
  constructor
  · intro xs hxs
    obtain ⟨ds, hds, hmakes⟩ := parse_eq_ok_iff.mp hxs
    exact ⟨ds, drafts_eq_ok hds, hmakes, normal_of_parse hxs⟩
  · intro ds hds
    refine ⟨drafts_eq_ok hds, ?_, ?_⟩
    · rw [parse_of_drafts hds]
      exact exists_symbols_iff ds
    · rintro ⟨d, hd, hnameless⟩
      rcases Draft.symbols_cases ds with ⟨xs, hxs, -⟩ | ⟨i, hleast, herror⟩
      · exact absurd ((exists_symbols_iff ds).mp ⟨xs, hxs⟩ d hd) hnameless
      · rw [parse_of_drafts hds, herror]
        exact ⟨i, hleast, rfl, rfl⟩

def paddedText : String := "[\x7b\"name\": \" strlen \", \"owner\": \" \"\x7d]"

def namelessText : String :=
  "[\x7b\"name\": \" strlen \"\x7d, \x7b\"name\": \" \"\x7d, \x7b\x7d]"

/-- blanks around a name are taken away; a second entry that is blank takes the first with it -/
theorem parse_all_or_nothing_padded :
    (∃ xs ds, json.parse paddedText = .ok xs ∧
      (json.entries paddedText).map Entry.draft? = ds.map some ∧
        List.Forall₂ Draft.Makes ds xs ∧ ∀ x ∈ xs, x.Normal) ∧
    ∃ ds i, json.drafts namelessText = .ok ds ∧ IsLeast (Draft.nameless ds) i ∧
      json.parse namelessText = .error (.nameless (i + 1)) := by
  obtain ⟨hread, hdecoded⟩ := parse_all_or_nothing json paddedText
  have hpadded : json.drafts paddedText = .ok [⟨some " strlen ", some " ", none, none, none⟩] := by
    decide +kernel
  have hnameless : json.drafts namelessText = .ok [⟨some " strlen ", none, none, none, none⟩,
      ⟨some " ", none, none, none, none⟩, ⟨none, none, none, none, none⟩] := by
    decide +kernel
  constructor
  · have hnamed : ∀ d ∈ [(⟨some " strlen ", some " ", none, none, none⟩ : Draft)], d.IsNamed := by
      intro d hd
      obtain rfl := List.mem_singleton.mp hd
      exact ⟨" strlen ", rfl, by decide +kernel⟩
    obtain ⟨xs, hxs⟩ := (hdecoded _ hpadded).2.1.mpr hnamed
    obtain ⟨ds, hds, hmakes, hnormal⟩ := hread xs hxs
    exact ⟨xs, ds, hxs, hds, hmakes, hnormal⟩
  · have hblank : ¬ Draft.IsNamed ⟨some " ", none, none, none, none⟩ := by
      rintro ⟨name, hname, hsome⟩
      cases hname
      exact hsome (by decide +kernel)
    obtain ⟨i, hleast, hfault, -⟩ := ((parse_all_or_nothing json namelessText).2 _ hnameless).2.2
      ⟨_, List.mem_cons_of_mem _ List.mem_cons_self, hblank⟩
    exact ⟨_, i, hnameless, hleast, hfault⟩

end VersionFloor.Format
