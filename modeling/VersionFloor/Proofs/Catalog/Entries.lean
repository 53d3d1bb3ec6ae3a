import VersionFloor.Catalog.Format

/-!
# Catalogs: the entries of a document

When a document is decoded, each of its entries gives one draft, in their order and none besides
(`drafts_eq_ok`): the `function` elements of the root in XML, the items of the list in JSON and
YAML.
-/

namespace VersionFloor

open Data Data.Xml

/-- a fault anywhere in a computation stops all of it -/
theorem bind_eq_ok {ε α β : Type} {x : Except ε α} {f : α → Except ε β} {b : β} :
    (x >>= f) = .ok b ↔ ∃ a, x = .ok a ∧ f a = .ok b := by
  cases x with
  | error e => exact ⟨fun h => (by cases h), fun ⟨_, h, _⟩ => (by cases h)⟩
  | ok a => exact ⟨fun h => ⟨a, rfl, h⟩, fun ⟨_, h, h'⟩ => (by cases h; exact h')⟩

/-- an entry as it stands in a document -/
inductive Entry where
  | markup (scope : Scope) (attributes : List Char) (children : List Node)
  | plain (v : Value)

def Entry.draft? : Entry → Option Draft
  | .markup scope attributes children => (Markup.entry scope attributes children).toOption
  | .plain v => Listing.entry? v

/-! ### elements -/

namespace Markup

/-- the entry that an element is, if it is one -/
def entryOf? (scope : Scope) : Node → Option Entry
  | .element name attributes children =>
    if String.ofList (localName name) = "function" then some (.markup scope attributes children)
    else none
  | _ => none

def entriesOf : Node → List Entry
  | .element _ attributes children =>
    children.filterMap (entryOf? (Scope.outermost.enter attributes))
  | _ => []

theorem entries_of_not_element {n : Node}
    (hn : ∀ name attributes children, n ≠ .element name attributes children) (scope : Scope)
    (run : Option (List Char)) (seen : Bool) (ns : List Node) :
    entries scope run seen (n :: ns) =
      if run.isSome && isContent n then .error .undecodable
      else skipNode n >>= fun _ => entries scope run seen ns := by
  cases n with
  | element name attributes children => exact absurd rfl (hn name attributes children)
  | _ => simp only [entries]

/-- in a run of entries the elements are all called the same -/
theorem entries_eq_ok {scope : Scope} {run : Option (List Char)} {seen : Bool} {ns : List Node}
    {ds : List Draft} (hrun : ∀ name ∈ run, String.ofList (localName name) = "function")
    (h : entries scope run seen ns = .ok ds) :
    (ns.filterMap (entryOf? scope)).map Entry.draft? = ds.map some := by
  induction ns generalizing run seen ds with
  | nil =>
    cases h
    rfl
  | cons n ns ih =>
    cases n with
    | element name attributes children =>
      rw [entries] at h
      by_cases hname : run = some name
      · rw [if_pos hname] at h
        obtain ⟨d, hd, h⟩ := bind_eq_ok.mp h
        obtain ⟨rest, hrest, h⟩ := bind_eq_ok.mp h
        cases h
        have hentry : entryOf? scope (.element name attributes children) =
            some (.markup scope attributes children) := if_pos (hrun name hname)
        rw [List.filterMap_cons_some hentry, List.map_cons, ih hrun hrest, Entry.draft?, hd]
        rfl
      · rw [if_neg hname] at h
        by_cases hlocal : String.ofList (localName name) = "function"
        · rw [if_pos hlocal] at h
          cases seen with
          | true => cases h
          | false =>
            obtain ⟨d, hd, h⟩ := bind_eq_ok.mp h
            obtain ⟨rest, hrest, h⟩ := bind_eq_ok.mp h
            cases h
            have hentry : entryOf? scope (.element name attributes children) =
                some (.markup scope attributes children) := if_pos hlocal
            have hrun' : ∀ name' ∈ some name, String.ofList (localName name') = "function" := by
              rintro _ ⟨⟩
              exact hlocal
            rw [List.filterMap_cons_some hentry, List.map_cons, ih hrun' hrest, Entry.draft?, hd]
            rfl
        · rw [if_neg hlocal] at h
          obtain ⟨-, -, h⟩ := bind_eq_ok.mp h
          have hentry : entryOf? scope (.element name attributes children) = none :=
            if_neg hlocal
          rw [List.filterMap_cons_none hentry]
          exact ih (by rintro _ ⟨⟩) h
    | _ =>
      rw [entries_of_not_element (by simp)] at h
      split at h
      · cases h
      · obtain ⟨-, -, h⟩ := bind_eq_ok.mp h
        exact ih hrun h

end Markup

/-! ### items -/

namespace Listing

/-- the value of the field that a key stands for -/
def field? (names : List (List String)) (i : Nat) (fs : List (Value × Value)) : Option Value :=
  (fs.find? fun f => fieldOf? names f.1 == some (some i)).map (·.2)

/-- of a field in front: whether its key stands for one of the fields, and then for none that
follows -/
theorem fieldsOfRecord?_cons {names : List (List String)} {k v : Value}
    {fs : List (Value × Value)} {values : List (Option Value)}
    (h : fieldsOfRecord? names ((k, v) :: fs) = some values) :
    ∃ rest, fieldsOfRecord? names fs = some rest ∧
      (fieldOf? names k = some none ∧ values = rest ∨
        ∃ i, fieldOf? names k = some (some i) ∧ values = rest.set i (some v)) := by
  obtain ⟨rest, hrest, h⟩ := Option.bind_eq_some_iff.mp h
  obtain ⟨field, hfield, h⟩ := Option.bind_eq_some_iff.mp h
  refine ⟨rest, hrest, ?_⟩
  cases field with
  | none => exact .inl ⟨hfield, (Option.some.inj h).symm⟩
  | some i =>
    dsimp only at h
    split at h
    · cases h
    · exact .inr ⟨i, hfield, (Option.some.inj h).symm⟩

theorem fieldsOfRecord?_length {names : List (List String)} {fs : List (Value × Value)}
    {values : List (Option Value)} (h : fieldsOfRecord? names fs = some values) :
    values.length = names.length := by
  induction fs generalizing values with
  | nil =>
    cases h
    exact List.length_map _
  | cons f fs ih =>
    obtain ⟨k, v⟩ := f
    obtain ⟨rest, hrest, ⟨-, rfl⟩ | ⟨i, -, rfl⟩⟩ := fieldsOfRecord?_cons h
    · exact ih hrest
    · rw [List.length_set, ih hrest]

/-- each field has the value that stands under it -/
theorem fieldsOfRecord?_getElem? {names : List (List String)} {fs : List (Value × Value)}
    {values : List (Option Value)} (h : fieldsOfRecord? names fs = some values) {i : Nat}
    (hi : i < names.length) : values[i]? = some (field? names i fs) := by
  induction fs generalizing values with
  | nil =>
    cases h
    rw [List.getElem?_map, List.getElem?_eq_getElem hi]
    rfl
  | cons f fs ih =>
    obtain ⟨k, v⟩ := f
    rw [field?, List.find?_cons]
    obtain ⟨rest, hrest, ⟨hk, rfl⟩ | ⟨j, hk, rfl⟩⟩ := fieldsOfRecord?_cons h
    · simp only [hk]
      exact ih hrest
    · simp only [hk]
      by_cases hij : j = i
      · subst hij
        have hlen : j < rest.length := by rw [fieldsOfRecord?_length hrest]; exact hi
        rw [beq_self_eq_true, List.getElem?_set_self hlen]
        rfl
      · have hne : (some (some j) == some (some i)) = false := by simp [hij]
        rw [hne, List.getElem?_set_ne hij]
        exact ih hrest

def items : Value → List Value
  | .list items => items
  | _ => []

/-- the items of the list, or of what stands under `functions` -/
def entriesOf : Value → List Value
  | .record fs => ((field? [["functions"]] 0 fs).map items).getD []
  | v => items v

theorem mapM_entry? {vs : List Value} {ds : List Draft} (h : vs.mapM entry? = some ds) :
    vs.map entry? = ds.map some := by
  induction vs generalizing ds with
  | nil =>
    cases h
    rfl
  | cons v vs ih =>
    rw [List.mapM_cons] at h
    obtain ⟨d, hd, h⟩ := Option.bind_eq_some_iff.mp h
    obtain ⟨rest, hrest, h⟩ := Option.bind_eq_some_iff.mp h
    cases h
    rw [List.map_cons, List.map_cons, hd, ih hrest]

theorem entries?_eq_some {v : Value} {ds : List Draft} (h : entries? v = some ds) :
    (items v).map entry? = ds.map some := by
  cases v with
  | list items => exact mapM_entry? h
  | _ => cases h

theorem drafts?_eq_some {v : Value} {ds : List Draft} (h : drafts? v = some ds) :
    (entriesOf v).map entry? = ds.map some := by
  cases v with
  | record fs =>
    obtain ⟨values, hvalues, h⟩ := Option.bind_eq_some_iff.mp h
    have hfield := fieldsOfRecord?_getElem? hvalues (i := 0) (by decide)
    split at h
    · rename_i v
      have hv : field? [["functions"]] 0 fs = some v := (Option.some.inj hfield).symm
      rw [entriesOf, hv]
      exact entries?_eq_some h
    · cases h
  | list items => exact entries?_eq_some (v := .list items) h
  | _ => cases h

end Listing

/-! ### documents -/

namespace Format

def entries : Format → String → List Entry
  | .xml, s => Markup.entriesOf (root s)
  | .json, s => ((Json.read? s).map Listing.entriesOf).getD [] |>.map .plain
  | .yaml, s => (((Yaml.read? s).bind (·.value?)).map Listing.entriesOf).getD [] |>.map .plain

theorem draftsOfValue_eq_ok {v : Value} {ds : List Draft} (h : draftsOfValue v = .ok ds) :
    ((Listing.entriesOf v).map Entry.plain).map Entry.draft? = ds.map some := by
  rw [draftsOfValue] at h
  cases hv : Listing.drafts? v with
  | none =>
    rw [hv] at h
    cases h
  | some ds' =>
    rw [hv] at h
    cases h
    rw [List.map_map]
    exact Listing.drafts?_eq_some hv

/-- **Every entry of a document is decoded**, each in its place. -/
theorem drafts_eq_ok {f : Format} {s : String} {ds : List Draft} (h : f.drafts s = .ok ds) :
    (f.entries s).map Entry.draft? = ds.map some := by
  cases f with
  | xml =>
    replace h : Markup.drafts s = .ok ds := h
    rw [Markup.drafts] at h
    show (Markup.entriesOf (root s)).map Entry.draft? = _
    cases hroot : root s with
    | element name attributes children =>
      rw [hroot] at h
      dsimp only at h
      split at h
      · exact Markup.entries_eq_ok (by rintro _ ⟨⟩) h
      · cases h
    | _ =>
      rw [hroot] at h
      cases h
  | json =>
    replace h : jsonDrafts s = .ok ds := h
    rw [jsonDrafts] at h
    show ((((Json.read? s).map Listing.entriesOf).getD []).map Entry.plain).map _ = _
    cases hv : Json.read? s with
    | none =>
      rw [hv] at h
      cases h
    | some v =>
      rw [hv] at h
      exact draftsOfValue_eq_ok h
  | yaml =>
    replace h : yamlDrafts s = .ok ds := h
    rw [yamlDrafts] at h
    show (((((Yaml.read? s).bind (·.value?)).map Listing.entriesOf).getD []).map
      Entry.plain).map _ = _
    cases hd : Yaml.read? s with
    | none =>
      rw [hd] at h
      cases h
    | some d =>
      rw [hd] at h
      dsimp only at h
      cases hv : d.value? with
      | none =>
        rw [hv] at h
        cases h
      | some v =>
        rw [hv] at h
        obtain ⟨ds', hds', h⟩ := bind_eq_ok.mp h
        rw [Option.bind_some, hv]
        split at h
        · cases h
          exact draftsOfValue_eq_ok hds'
        · cases h

end Format

end VersionFloor
