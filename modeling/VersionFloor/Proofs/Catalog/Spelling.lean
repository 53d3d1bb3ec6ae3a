import VersionFloor.Data.Record
import VersionFloor.Proofs.Catalog.Fields
import VersionFloor.Proofs.Catalog.Parse
import VersionFloor.Proofs.Data.Json.Layout

/-!
# Catalogs: the ways to write entries as plain data

`GivesListing` says which values give a list of entries, bare or under `functions`, and
`ListingRepeats` in which of them a field comes twice.  The reader finds the entries of the former
(`drafts?_of_gives`) and nothing in the latter (`drafts?_of_repeats`).
-/

namespace VersionFloor

open Data

namespace Listing

/-! ### values that give entries -/

/-- a field that is absent is null -/
def GivesItem {α : Type} (gives : α → Value → Prop) : Option α → Value → Prop
  | none, v => v = .null
  | some a, v => gives a v

def GivesText (s : String) (v : Value) : Prop := v = .text s

section

variable (free : Value → Prop)

/-- a version may be a number that stands for its text -/
def GivesVersion (s : String) (v : Value) : Prop :=
  v = .text s ∨ ∃ n : Number, v = .number n ∧ n.text = s ∧ free v

def GivesExtension (e : ExtensionDraft) : Value → Prop :=
  Gives free extensionNames [GivesItem GivesText e.name, GivesItem (GivesVersion free) e.version]

def GivesEntry (d : Draft) : Value → Prop :=
  Gives free entryNames
    [GivesItem GivesText d.name, GivesItem GivesText d.owner,
      GivesItem (GivesVersion free) d.version, GivesItem (GivesExtension free) d.extension,
      GivesItem GivesText d.description]

inductive GivesListing (ds : List Draft) : Value → Prop
  | bare {items : List Value} : List.Forall₂ (GivesEntry free) ds items →
      GivesListing ds (.list items)
  | wrapped {items : List Value} {fs others : List (Value × Value)} :
      List.Forall₂ (GivesEntry free) ds items →
        (∀ f ∈ others, IsOther [["functions"]] f.1 ∧ free f.2) →
          fs.Perm (others ++ Fields.one "functions" (.list items)) → GivesListing ds (.record fs)

end

theorem givesText_text (s : String) : GivesText s (.text s) := rfl

theorem givesVersion_text (free : Value → Prop) (s : String) : GivesVersion free s (.text s) :=
  .inl rfl

/-! ### reading entries -/

section

variable {free : Value → Prop}

theorem text?_of_gives {s : Option String} {v : Value} (h : GivesItem GivesText s v) :
    text? v = some s := by
  cases s with
  | none =>
    obtain rfl : v = .null := h
    rfl
  | some s =>
    obtain rfl : v = .text s := h
    rfl

theorem scalar?_of_gives {s : Option String} {v : Value}
    (h : GivesItem (GivesVersion free) s v) : scalar? v = some s := by
  cases s with
  | none =>
    obtain rfl : v = .null := h
    rfl
  | some s =>
    obtain rfl | ⟨n, rfl, rfl, -⟩ : GivesVersion free s v := h
    · rfl
    · rfl

theorem Gives.ne_null {names : List (List String)} {row : List (Value → Prop)} {v : Value}
    (h : Gives free names row v) : v ≠ .null := by
  cases h <;> exact Value.noConfusion

theorem extension?_eq {v name version : Value} (hv : v ≠ .null)
    (hfields : fields? extensionNames v = some [name, version]) {s t : Option String}
    (hname : text? name = some s) (hversion : scalar? version = some t) :
    extension? v = some (some ⟨s, t⟩) := by
  cases v with
  | null => exact absurd rfl hv
  | _ =>
    simp only [extension?, hfields, Option.bind_eq_bind, Option.bind_some, hname, hversion]
    rfl

theorem extension?_of_gives {e : Option ExtensionDraft} {v : Value}
    (h : GivesItem (GivesExtension free) e v) : extension? v = some e := by
  cases e with
  | none =>
    obtain rfl : v = .null := h
    rfl
  | some e =>
    replace h : Gives free _ _ v := h
    obtain ⟨vs, hfields, hall⟩ := fields?_of_gives distinct_extensionNames rfl h
    obtain _ | ⟨hname, _ | ⟨hversion, _ | _⟩⟩ := hall
    exact extension?_eq h.ne_null hfields (text?_of_gives hname) (scalar?_of_gives hversion)

/-- **An entry reads as it was written**, whichever way. -/
theorem entry?_of_gives {d : Draft} {v : Value} (h : GivesEntry free d v) :
    entry? v = some d := by
  obtain ⟨vs, hfields, hall⟩ := fields?_of_gives distinct_entryNames rfl h
  obtain _ | ⟨hname, _ | ⟨howner, _ | ⟨hversion, _ | ⟨hextension, _ | ⟨hdescription, _ | _⟩⟩⟩⟩⟩ :=
    hall
  show (fields? entryNames v).bind _ = _
  rw [hfields, Option.bind_some]
  dsimp only
  rw [text?_of_gives hname, text?_of_gives howner, scalar?_of_gives hversion,
    extension?_of_gives hextension, text?_of_gives hdescription]
  rfl

theorem mapM_entry?_of_gives {ds : List Draft} {items : List Value}
    (h : List.Forall₂ (GivesEntry free) ds items) : items.mapM entry? = some ds := by
  induction h with
  | nil => rfl
  | cons hd _ ih =>
    rw [List.mapM_cons, entry?_of_gives hd, ih]
    rfl

theorem drafts?_of_gives {ds : List Draft} {v : Value} (h : GivesListing free ds v) :
    drafts? v = some ds := by
  cases h with
  | bare hitems => exact mapM_entry?_of_gives hitems
  | @wrapped items fs others hitems hothers hperm =>
    have hfields : fieldsOfRecord? [["functions"]] fs = some [some (.list items)] := by
      rw [fieldsOfRecord?_perm _ hperm,
        fieldsOfRecord?_append_others fun f hf => (hothers f hf).1]
      rfl
    rw [drafts?, hfields]
    exact mapM_entry?_of_gives hitems

end

/-! ### room -/

open Json

/-- a value without others in it, which is written as it is kept -/
def IsLeaf (v : Value) : Prop := fits 0 v = true

theorem IsLeaf.fits {v : Value} (h : IsLeaf v) (room : Nat) : Json.fits room v = true := by
  cases v with
  | list => cases h
  | record => cases h
  | _ => exact h

theorem IsOther.isKey {names : List (List String)} {k : Value} (h : IsOther names k) :
    Json.isKey k = true := by
  obtain ⟨key, rfl, -⟩ := h
  rfl

theorem fits_of_givesFields {room : Nat} {names : List (List String)} {row : List (Value → Prop)}
    (hrow : ∀ takes ∈ row, ∀ v, takes v → fits room v = true) {fs : List (Value × Value)}
    (h : GivesFields names row fs) :
    ∀ f ∈ fs, isKey f.1 = true ∧ fits room f.2 = true := by
  induction h with
  | nil => exact fun _ hf => (by cases hf)
  | absent _ _ ih => exact ih fun takes htakes => hrow takes (List.mem_cons_of_mem _ htakes)
  | given _ hv _ ih =>
    intro f hf
    rcases List.mem_cons.mp hf with rfl | hf
    · exact ⟨rfl, hrow _ List.mem_cons_self _ hv⟩
    · exact ih (fun takes htakes => hrow takes (List.mem_cons_of_mem _ htakes)) f hf

theorem exists_mem_of_forall₂ {α β : Type} {r : α → β → Prop} {as : List α} {bs : List β}
    (h : List.Forall₂ r as bs) {b : β} (hb : b ∈ bs) : ∃ a ∈ as, r a b := by
  induction h with
  | nil => cases hb
  | cons hr _ ih =>
    rcases List.mem_cons.mp hb with rfl | hb
    · exact ⟨_, List.mem_cons_self, hr⟩
    · obtain ⟨a, ha, hab⟩ := ih hb
      exact ⟨a, List.mem_cons_of_mem _ ha, hab⟩

theorem fits_of_gives {room : Nat} {names : List (List String)} {row : List (Value → Prop)}
    (hrow : ∀ takes ∈ row, ∀ v, takes v → fits room v = true) {v : Value}
    (h : Gives IsLeaf names row v) : fits (room + 1) v = true := by
  cases h with
  | @record fs given others hgiven hothers hperm =>
    refine fits_record fun f hf => ?_
    rcases List.mem_append.mp (hperm.mem_iff.mp hf) with hf | hf
    · exact fits_of_givesFields hrow hgiven f hf
    · exact ⟨(hothers f hf).1.isKey, (hothers f hf).2.fits room⟩
  | list hall =>
    refine fits_list fun v hv => ?_
    obtain ⟨takes, htakes, hv⟩ := exists_mem_of_forall₂ hall (List.mem_append_left _ hv)
    exact hrow takes htakes v hv

theorem fits_of_givesItem {α : Type} {gives : α → Value → Prop} {room : Nat}
    (hgives : ∀ a v, gives a v → fits room v = true) (a : Option α) (v : Value)
    (h : GivesItem gives a v) : fits room v = true := by
  cases a with
  | none =>
    obtain rfl : v = .null := h
    rfl
  | some a => exact hgives a v h

theorem fits_of_givesText {room : Nat} (s : String) (v : Value) (h : GivesText s v) :
    fits room v = true := by
  obtain rfl : v = .text s := h
  rfl

theorem fits_of_givesVersion {room : Nat} (s : String) (v : Value)
    (h : GivesVersion IsLeaf s v) : fits room v = true := by
  obtain rfl | ⟨_, rfl, -, hleaf⟩ := h
  · rfl
  · exact hleaf.fits room

theorem fits_of_givesExtension {room : Nat} (e : ExtensionDraft) (v : Value)
    (h : GivesExtension IsLeaf e v) : fits (room + 1) v = true := by
  refine fits_of_gives ?_ h
  simp only [List.forall_mem_cons, List.not_mem_nil, false_imp_iff, implies_true, and_true]
  exact ⟨fits_of_givesItem fits_of_givesText _, fits_of_givesItem fits_of_givesVersion _⟩

theorem fits_of_givesEntry {room : Nat} {d : Draft} {v : Value} (h : GivesEntry IsLeaf d v) :
    fits (room + 2) v = true := by
  refine fits_of_gives ?_ h
  simp only [List.forall_mem_cons, List.not_mem_nil, false_imp_iff, implies_true, and_true]
  exact ⟨fits_of_givesItem fits_of_givesText _, fits_of_givesItem fits_of_givesText _,
    fits_of_givesItem fits_of_givesVersion _, fits_of_givesItem fits_of_givesExtension _,
    fits_of_givesItem fits_of_givesText _⟩

theorem fits_list_of_gives {room : Nat} {ds : List Draft} {items : List Value}
    (h : List.Forall₂ (GivesEntry IsLeaf) ds items) : fits (room + 3) (.list items) = true := by
  refine fits_list fun v hv => ?_
  obtain ⟨_, -, hgives⟩ := exists_mem_of_forall₂ h hv
  exact fits_of_givesEntry hgives

theorem fits_of_givesListing (room : Nat) {ds : List Draft} {v : Value}
    (h : GivesListing IsLeaf ds v) : fits (room + 4) v = true := by
  cases h with
  | bare hitems => exact fits_list_of_gives hitems
  | @wrapped items fs others hitems hothers hperm =>
    refine fits_record fun f hf => ?_
    rcases List.mem_append.mp (hperm.mem_iff.mp hf) with hf | hf
    · exact ⟨(hothers f hf).1.isKey, (hothers f hf).2.fits (room + 3)⟩
    · obtain rfl := List.mem_singleton.mp hf
      exact ⟨rfl, fits_list_of_gives hitems⟩

/-! ### fields that come twice -/

/-- an entry that gives one of its fields, or one of those of its extension, twice -/
inductive EntryRepeats : Value → Prop
  | entry {fs : List (Value × Value)} : Repeats entryNames fs → EntryRepeats (.record fs)
  | extension {fs es : List (Value × Value)} : (.text "extension", .record es) ∈ fs →
      Repeats extensionNames es → EntryRepeats (.record fs)
  | item {items : List Value} {es : List (Value × Value)} : items[3]? = some (.record es) →
      Repeats extensionNames es → EntryRepeats (.list items)

/-- a document in which some entry gives a field twice -/
inductive ListingRepeats : Value → Prop
  | bare {items : List Value} {v : Value} : v ∈ items → EntryRepeats v →
      ListingRepeats (.list items)
  | wrapped {items : List Value} {fs : List (Value × Value)} {v : Value} :
      (.text "functions", .list items) ∈ fs → v ∈ items → EntryRepeats v →
        ListingRepeats (.record fs)

theorem extension?_of_repeats {es : List (Value × Value)} (h : Repeats extensionNames es) :
    extension? (.record es) = none := by
  show ((fieldsOfRecord? extensionNames es).map _).bind _ = none
  rw [fieldsOfRecord?_of_repeats distinct_extensionNames h]
  rfl

/-- an entry is read when its extension is -/
theorem exists_extension?_of_entry? {v : Value} {d : Draft} (h : entry? v = some d) :
    ∃ vs, fields? entryNames v = some vs ∧
      ∀ x, vs[3]? = some x → extension? x = some d.extension := by
  obtain ⟨vs, hvs, h⟩ := Option.bind_eq_some_iff.mp h
  refine ⟨vs, hvs, fun x hx => ?_⟩
  split at h
  · rename_i name owner version extension description
    cases hx
    obtain ⟨_, -, h⟩ := Option.bind_eq_some_iff.mp h
    obtain ⟨_, -, h⟩ := Option.bind_eq_some_iff.mp h
    obtain ⟨_, -, h⟩ := Option.bind_eq_some_iff.mp h
    obtain ⟨e, he, h⟩ := Option.bind_eq_some_iff.mp h
    obtain ⟨_, -, h⟩ := Option.bind_eq_some_iff.mp h
    cases h
    exact he
  · cases h

theorem entry?_of_repeats {v : Value} (h : EntryRepeats v) : entry? v = none := by
  refine Option.eq_none_iff_forall_ne_some.mpr fun d hd => ?_
  obtain ⟨vs, hvs, hextension⟩ := exists_extension?_of_entry? hd
  cases h with
  | entry htwice =>
    rw [fields?, fieldsOfRecord?_of_repeats distinct_entryNames htwice] at hvs
    cases hvs
  | @extension fs es hmem htwice =>
    obtain ⟨values, hvalues, rfl⟩ := Option.map_eq_some_iff.mp hvs
    have hat : values[3]? = some (some (.record es)) :=
      fieldsOfRecord?_of_mem (by decide) (by decide) hmem hvalues
    have he := hextension (.record es) (by rw [List.getElem?_map, hat]; rfl)
    rw [extension?_of_repeats htwice] at he
    cases he
  | @item items es hat htwice =>
    rw [fields?] at hvs
    split at hvs
    · cases hvs
      obtain ⟨hlen, -⟩ := List.getElem?_eq_some_iff.mp hat
      have he := hextension (.record es) (by rw [List.getElem?_append_left hlen, hat])
      rw [extension?_of_repeats htwice] at he
      cases he
    · cases hvs

theorem entries?_of_repeats {items : List Value} {v : Value} (hv : v ∈ items)
    (h : EntryRepeats v) : entries? (.list items) = none := by
  refine Option.eq_none_iff_forall_ne_some.mpr fun ds hds => ?_
  have hmap : items.map entry? = ds.map some := mapM_entry? hds
  have hmem : entry? v ∈ ds.map some := hmap ▸ List.mem_map_of_mem hv
  rw [entry?_of_repeats h] at hmem
  obtain ⟨_, -, hd⟩ := List.mem_map.mp hmem
  cases hd

/-- **One field twice is a mismatch of the whole.** -/
theorem drafts?_of_repeats {v : Value} (h : ListingRepeats v) : drafts? v = none := by
  cases h with
  | bare hv htwice => exact entries?_of_repeats hv htwice
  | @wrapped items fs v hmem hv htwice =>
    rw [drafts?]
    cases hfields : fieldsOfRecord? [["functions"]] fs with
    | none => rfl
    | some values =>
      have hat : values[0]? = some (some (.list items)) :=
        fieldsOfRecord?_of_mem (by decide) (by decide) hmem hfields
      have hlen : values.length = 1 := fieldsOfRecord?_length hfields
      obtain ⟨x, rfl⟩ := List.length_eq_one_iff.mp hlen
      cases hat
      exact entries?_of_repeats hv htwice

end Listing

/-! ### documents -/

namespace Format

open Data Listing

/-- **The spelling of a catalog is free.**  All texts that write the same entries, bare or under
`functions`, with whatever keys, in whatever order and with whatever else beside them, are read as
the same symbols or have the same fault, that of the first entry without a name.  Of a text in which
some entry or extension gives a field twice nothing is read. -/
theorem json_parse_spellings :
    (∀ ds : List Draft, ∃ result,
      ((∃ xs, result = .ok xs ∧ List.Forall₂ Draft.Makes ds xs) ∨
        ∃ i fault, IsLeast (Draft.nameless ds) i ∧ result = .error fault ∧
          fault.message = "entry " ++ toString (i + 1) ++ " has no name") ∧
      (∀ v text, GivesListing IsLeaf ds v →
        Json.Written (Json.valueTokens v) text.toList → json.parse text = result) ∧
      (∀ v text, GivesListing (fun _ => True) ds v →
        Json.read? text = some v → json.parse text = result)) ∧
    ∀ v text, ListingRepeats v → Json.read? text = some v →
      json.parse text = .error .wrongShape := by
  refine ⟨fun ds => ⟨Draft.symbols ds, ?_, ?_, ?_⟩, ?_⟩
  · rcases Draft.symbols_cases ds with ⟨xs, hxs, hmakes⟩ | ⟨i, hleast, herror⟩
    · exact .inl ⟨xs, hxs, hmakes⟩
    · exact .inr ⟨i, .nameless (i + 1), hleast, herror, rfl⟩
  · intro v text hgives hwritten
    have hfits : Json.fits Json.depthLimit v = true := fits_of_givesListing 123 hgives
    exact json_parse_of_drafts? (drafts?_of_gives hgives) ⟨hfits, hwritten⟩
  · intro v text hgives hread
    exact json_parse_of_read? (drafts?_of_gives hgives) hread
  · intro v text hrepeats hread
    have hdrafts : json.drafts text = .error .wrongShape := by
      show jsonDrafts text = _
      rw [jsonDrafts, hread]
      dsimp only
      rw [draftsOfValue, drafts?_of_repeats hrepeats]
    rw [parse, hdrafts]
    rfl

/-- a class with a version -/
def classDraft : Draft := ⟨some "f", some "C", some "5", none, none⟩

theorem classDraft_isNamed : classDraft.IsNamed := ⟨"f", rfl, by decide +kernel⟩

/-- in the order of its fields, those at the end left out -/
theorem givesEntry_positions (free : Value → Prop) :
    GivesEntry free classDraft (.list [.text "f", .text "C", .text "5"]) :=
  @Gives.list free entryNames _ _ 2
    (.cons rfl (.cons rfl (.cons (.inl rfl) (.cons rfl (.cons rfl .nil)))))

def classFields : List (Value × Value) :=
  [(.text "name", .text "f"), (.text "class", .text "C"), (.text "version", .text "5")]

/-- with other keys, the last field first -/
theorem givesEntry_keys (free : Value → Prop) :
    GivesEntry free classDraft (.record classFields.reverse) := by
  have hgiven : GivesFields entryNames [GivesItem GivesText (some "f"),
      GivesItem GivesText (some "C"), GivesItem (GivesVersion free) (some "5"),
      GivesItem (GivesExtension free) none, GivesItem GivesText none] classFields :=
    .given (by decide) rfl (.given (by decide) rfl (.given (by decide) (.inl rfl)
      (.absent rfl (.absent rfl .nil))))
  have horder : classFields.reverse.Perm (classFields ++ []) := by
    rw [List.append_nil]
    exact List.reverse_perm classFields
  exact .record hgiven (fun f hf => absurd hf List.not_mem_nil) horder

def positionsText : String := "[[\"f\", \"C\", \"5\"]]"

def keysText : String :=
  "\x7b\"a\": \"b\", \"functions\": " ++
    "[\x7b\"version\": \"5\", \"class\": \"C\", \"name\": \"f\"\x7d]\x7d"

def twiceText : String := "[\x7b\"name\": \"f\", \"owner\": \"C\", \"class\": null\x7d]"

/-- the same entry in three spellings, and one that gives its class under two keys -/
theorem json_parse_spellings_class :
    (∃ xs, json.parse positionsText = .ok xs ∧ json.parse keysText = .ok xs ∧
      json.parse (Json.pretty (.list [.record classFields.reverse])) = .ok xs ∧
        List.Forall₂ Draft.Makes [classDraft] xs) ∧
      json.parse twiceText = .error .wrongShape := by
  obtain ⟨hsame, htwice⟩ := json_parse_spellings
  obtain ⟨result, hresult, hwritten, hread⟩ := hsame [classDraft]
  have hpositions : json.parse positionsText = result :=
    hread _ _ (.bare (.cons (givesEntry_positions _) .nil)) rfl
  have hkeys : json.parse keysText = result := by
    have hother : ∀ f ∈ [(Value.text "a", Value.text "b")],
        IsOther [["functions"]] f.1 ∧ True := by
      intro f hf
      obtain rfl := List.mem_singleton.mp hf
      exact ⟨⟨"a", rfl, by decide⟩, trivial⟩
    exact hread _ _ (.wrapped (.cons (givesEntry_keys _) .nil) hother (List.Perm.refl _)) rfl
  have hpretty : json.parse (Json.pretty (.list [.record classFields.reverse])) = result := by
    have hgives : GivesListing IsLeaf [classDraft] (.list [.record classFields.reverse]) :=
      .bare (.cons (givesEntry_keys _) .nil)
    exact hwritten _ _ hgives (Json.writes_pretty (fits_of_givesListing 123 hgives)).2
  have hrepeats : ListingRepeats (.list [.record [(.text "name", .text "f"),
      (.text "owner", .text "C"), (.text "class", .null)]]) := by
    refine .bare List.mem_cons_self (.entry ⟨["owner", "class"], by decide, "owner", by decide,
      "class", by decide, ?_⟩)
    exact .cons _ (List.Sublist.refl _)
  refine ⟨?_, htwice _ _ hrepeats rfl⟩
  rcases hresult with ⟨xs, rfl, hmakes⟩ | ⟨i, _, ⟨⟨d, hd, hnameless⟩, -⟩, -⟩
  · exact ⟨xs, hpositions, hkeys, hpretty, hmakes⟩
  · obtain rfl := List.mem_singleton.mp (List.mem_of_getElem? hd)
    exact absurd classDraft_isNamed hnameless

end Format

end VersionFloor
