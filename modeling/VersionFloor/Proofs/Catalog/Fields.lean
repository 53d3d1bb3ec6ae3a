import Mathlib.Data.List.Forall2
import VersionFloor.Proofs.Catalog.Entries

/-!
# Catalogs: fields of a record without the reader

`Gives` says which values give a row of fields: records in any order, with any spelling of the keys,
with keys of no field besides and without the fields that are absent, and lists in the order of the
fields.  Each of them is read as its fields (`fields?_of_gives`), and a record with one field twice
is not read at all (`fieldsOfRecord?_of_repeats`).
-/

namespace VersionFloor.Listing

open Data

/-! ### the field of a key -/

/-- no key spells two fields -/
def Distinct (names : List (List String)) : Prop :=
  names.Pairwise fun a b => ∀ key ∈ a, key ∉ b

instance (names : List (List String)) : Decidable (Distinct names) :=
  inferInstanceAs (Decidable (names.Pairwise _))

theorem distinct_entryNames : Distinct entryNames := by decide

theorem distinct_extensionNames : Distinct extensionNames := by decide

/-- a key of no field -/
def IsOther (names : List (List String)) (k : Value) : Prop :=
  ∃ key, k = .text key ∧ ∀ spellings ∈ names, key ∉ spellings

theorem fieldOf?_of_mem {names : List (List String)} (hnames : Distinct names) {i : Nat}
    {spellings : List String} (hi : names[i]? = some spellings) {key : String}
    (hkey : key ∈ spellings) : fieldOf? names (.text key) = some (some i) := by
  obtain ⟨hlen, rfl⟩ := List.getElem?_eq_some_iff.mp hi
  refine congrArg some (List.findIdx?_eq_some_iff_getElem.mpr ⟨hlen, ?_, fun j hj => ?_⟩)
  · exact List.contains_iff_mem.mpr hkey
  · intro hmem
    exact List.pairwise_iff_getElem.mp hnames j i (by omega) hlen hj key
      (List.contains_iff_mem.mp hmem) hkey

theorem fieldOf?_of_isOther {names : List (List String)} {k : Value} (h : IsOther names k) :
    fieldOf? names k = some none := by
  obtain ⟨key, rfl, hkey⟩ := h
  refine congrArg some (List.findIdx?_eq_none_iff.mpr fun spellings hspellings => ?_)
  rw [List.contains_eq_mem, decide_eq_false_iff_not]
  exact hkey spellings hspellings

/-! ### fields in any order -/

/-- one value more among those of the fields; that of no field is passed over -/
def place : Option Nat → Value → List (Option Value) → Option (List (Option Value))
  | none, _, values => some values
  | some i, v, values =>
    if (values[i]?.getD none).isSome then none else some (values.set i (some v))

theorem place_eq_none {i : Nat} {values : List (Option Value)} {w : Value}
    (hi : values[i]? = some (some w)) (v : Value) : place (some i) v values = none := by
  rw [place, hi]
  rfl

theorem place_cases (i : Nat) (v : Value) (values : List (Option Value)) :
    place (some i) v values = none ∨ place (some i) v values = some (values.set i (some v)) := by
  rw [place]
  split
  · exact .inl rfl
  · exact .inr rfl

/-- a field can be placed once -/
theorem place_set_self {i : Nat} {values : List (Option Value)} (hi : i < values.length)
    (v w : Value) : place (some i) w (values.set i (some v)) = none :=
  place_eq_none (List.getElem?_set_self hi) w

theorem place_set_of_ne {i j : Nat} (hij : i ≠ j) (v w : Value) (values : List (Option Value)) :
    place (some j) w (values.set i (some v)) =
      (place (some j) w values).map (·.set i (some v)) := by
  rw [place, place, List.getElem?_set_ne hij, List.set_comm _ _ hij]
  split <;> rfl

/-- of two values for one field neither is read, whichever comes first -/
theorem place_comm_self (i : Nat) (v w : Value) (values : List (Option Value)) :
    (place (some i) v values).bind (place (some i) w) =
      (place (some i) w values).bind (place (some i) v) := by
  by_cases htaken : (values[i]?.getD none).isSome
  · have hnone (v : Value) : place (some i) v values = none := if_pos htaken
    rw [hnone, hnone]
    rfl
  · have hset (v : Value) : place (some i) v values = some (values.set i (some v)) :=
      if_neg htaken
    rw [hset, hset, Option.bind_some, Option.bind_some]
    rcases Nat.lt_or_ge i values.length with hi | hi
    · rw [place_set_self hi, place_set_self hi]
    · rw [List.set_eq_of_length_le hi, List.set_eq_of_length_le hi, hset, hset,
        List.set_eq_of_length_le hi, List.set_eq_of_length_le hi]

theorem place_comm_of_ne {i j : Nat} (hij : i ≠ j) (v w : Value) (values : List (Option Value)) :
    (place (some i) v values).bind (place (some j) w) =
      (place (some j) w values).bind (place (some i) v) := by
  rcases place_cases i v values with hv | hv <;> rcases place_cases j w values with hw | hw
  · rw [hv, hw]
    rfl
  · rw [hv, hw, Option.bind_some, place_set_of_ne hij.symm, hv]
    rfl
  · rw [hv, hw, Option.bind_some, place_set_of_ne hij, hw]
    rfl
  · rw [hv, hw, Option.bind_some, Option.bind_some, place_set_of_ne hij, hw,
      place_set_of_ne hij.symm, hv, Option.map_some, Option.map_some, List.set_comm _ _ hij]

theorem place_comm (i j : Option Nat) (v w : Value) (values : List (Option Value)) :
    (place i v values).bind (place j w) = (place j w values).bind (place i v) := by
  cases i with
  | none => exact (Option.bind_fun_some _).symm
  | some i =>
    cases j with
    | none => exact Option.bind_fun_some _
    | some j =>
      by_cases hij : i = j
      · subst hij
        exact place_comm_self i v w values
      · exact place_comm_of_ne hij v w values

/-- a field that is read in front of others -/
def putField (names : List (List String)) (f : Value × Value) (values : List (Option Value)) :
    Option (List (Option Value)) :=
  (fieldOf? names f.1).bind fun i => place i f.2 values

theorem putField_of_none {names : List (List String)} {f : Value × Value}
    (h : fieldOf? names f.1 = none) : putField names f = fun _ => none := by
  funext values
  rw [putField, h, Option.bind_none]

theorem putField_of_some {names : List (List String)} {f : Value × Value} {i : Option Nat}
    (h : fieldOf? names f.1 = some i) : putField names f = place i f.2 := by
  funext values
  rw [putField, h, Option.bind_some]

theorem putField_comm (names : List (List String)) (f g : Value × Value)
    (values : List (Option Value)) :
    (putField names f values).bind (putField names g) =
      (putField names g values).bind (putField names f) := by
  cases hf : fieldOf? names f.1 with
  | none =>
    rw [putField_of_none hf]
    exact (Option.bind_fun_none _).symm
  | some i =>
    cases hg : fieldOf? names g.1 with
    | none =>
      rw [putField_of_none hg]
      exact Option.bind_fun_none _
    | some j =>
      rw [putField_of_some hf, putField_of_some hg]
      exact place_comm i j f.2 g.2 values

theorem fieldsOfRecord?_eq_bind (names : List (List String)) (f : Value × Value)
    (fs : List (Value × Value)) :
    fieldsOfRecord? names (f :: fs) = (fieldsOfRecord? names fs).bind (putField names f) := by
  obtain ⟨k, v⟩ := f
  rw [fieldsOfRecord?]
  refine congrArg (Option.bind _) (funext fun values => ?_)
  rw [putField]
  cases fieldOf? names k with
  | none => rfl
  | some i => cases i <;> rfl

theorem fieldsOfRecord?_perm (names : List (List String)) {fs gs : List (Value × Value)}
    (h : fs.Perm gs) : fieldsOfRecord? names fs = fieldsOfRecord? names gs := by
  induction h with
  | nil => rfl
  | cons f _ ih => rw [fieldsOfRecord?_eq_bind, fieldsOfRecord?_eq_bind, ih]
  | swap f g fs =>
    simp only [fieldsOfRecord?_eq_bind, Option.bind_assoc, putField_comm names f g]
  | trans _ _ ih ih' => exact ih.trans ih'

/-! ### values that give fields -/

/-- Fields that stand in a record, each with one of its spellings and a value as it takes; one that
may be null may be left out. -/
inductive GivesFields : List (List String) → List (Value → Prop) → List (Value × Value) → Prop
  | nil : GivesFields [] [] []
  | absent {spellings : List String} {names : List (List String)} {takes : Value → Prop}
      {row : List (Value → Prop)} {fs : List (Value × Value)} :
      takes .null → GivesFields names row fs →
        GivesFields (spellings :: names) (takes :: row) fs
  | given {spellings : List String} {names : List (List String)} {takes : Value → Prop}
      {row : List (Value → Prop)} {fs : List (Value × Value)} {key : String} {v : Value} :
      key ∈ spellings → takes v → GivesFields names row fs →
        GivesFields (spellings :: names) (takes :: row) ((.text key, v) :: fs)

/-- A record or a list whose fields are as `row` takes them.  In a record other keys may stand too,
with what is `free`; in a list the last fields may be left out when they may be null. -/
inductive Gives (free : Value → Prop) (names : List (List String)) (row : List (Value → Prop)) :
    Value → Prop
  | record {fs given others : List (Value × Value)} : GivesFields names row given →
      (∀ f ∈ others, IsOther names f.1 ∧ free f.2) → fs.Perm (given ++ others) →
        Gives free names row (.record fs)
  | list {items : List Value} {absent : Nat} :
      List.Forall₂ (fun takes v => takes v) row (items ++ List.replicate absent .null) →
        Gives free names row (.list items)

theorem fieldsOfRecord?_append_others {names : List (List String)}
    {others : List (Value × Value)} (hothers : ∀ f ∈ others, IsOther names f.1)
    (fs : List (Value × Value)) :
    fieldsOfRecord? names (others ++ fs) = fieldsOfRecord? names fs := by
  induction others with
  | nil => rfl
  | cons f others ih =>
    have hf := fieldOf?_of_isOther (hothers f List.mem_cons_self)
    rw [List.cons_append, fieldsOfRecord?_eq_bind,
      ih fun g hg => hothers g (List.mem_cons_of_mem _ hg)]
    cases fieldsOfRecord? names fs with
    | none => rfl
    | some values => exact congrFun (putField_of_some hf) values

/-- the names in front are those of fields that do not stand here -/
theorem fieldsOfRecord?_of_givesFields (front : List (List String)) {names : List (List String)}
    (hnames : Distinct (front ++ names)) {row : List (Value → Prop)} {fs : List (Value × Value)}
    (h : GivesFields names row fs) :
    ∃ values, fieldsOfRecord? (front ++ names) fs = some (front.map (fun _ => none) ++ values) ∧
      List.Forall₂ (fun takes v => takes v) row (values.map (·.getD .null)) := by
  -- one name after the other goes to the front, so that its place stays the length of the front
  induction h generalizing front with
  | nil =>
    refine ⟨[], ?_, .nil⟩
    rw [fieldsOfRecord?, List.append_nil, List.append_nil]
  | @absent spellings names takes row fs hnull _ ih =>
    rw [List.append_cons] at hnames ⊢
    obtain ⟨values, hvalues, hall⟩ := ih _ hnames
    refine ⟨none :: values, ?_, .cons hnull hall⟩
    rw [hvalues, List.map_append, List.append_assoc]
    rfl
  | @given spellings names takes row fs key v hkey hv _ ih =>
    have hfield : fieldOf? (front ++ spellings :: names) (.text key) = some (some front.length) :=
      fieldOf?_of_mem hnames (by simp) hkey
    rw [List.append_cons] at hnames
    obtain ⟨values, hvalues, hall⟩ := ih _ hnames
    refine ⟨some v :: values, ?_, .cons hv hall⟩
    rw [List.append_cons] at hfield ⊢
    rw [fieldsOfRecord?_eq_bind, hvalues, Option.bind_some, putField_of_some hfield]
    have hplace : place (some front.length) v (front.map (fun _ => none) ++ none :: values) =
        some (front.map (fun _ => none) ++ some v :: values) := by
      simp [place]
    rw [List.map_append, List.append_assoc]
    exact hplace

theorem fields?_of_gives {free : Value → Prop} {names : List (List String)}
    (hnames : Distinct names) {row : List (Value → Prop)} (hlen : row.length = names.length)
    {v : Value} (h : Gives free names row v) :
    ∃ vs, fields? names v = some vs ∧ List.Forall₂ (fun takes v => takes v) row vs := by
  cases h with
  | @record fs given others hgiven hothers hperm =>
    obtain ⟨values, hvalues, hall⟩ := fieldsOfRecord?_of_givesFields [] hnames hgiven
    have hperm' : fs.Perm (others ++ given) := hperm.trans List.perm_append_comm
    refine ⟨_, ?_, hall⟩
    rw [fields?, fieldsOfRecord?_perm names hperm',
      fieldsOfRecord?_append_others fun f hf => (hothers f hf).1]
    exact congrArg (Option.map _) hvalues
  | @list items absent hall =>
    have htotal := hall.length_eq
    rw [List.length_append, List.length_replicate] at htotal
    have habsent : names.length - items.length = absent := by omega
    refine ⟨_, ?_, hall⟩
    rw [fields?, if_pos (by omega), habsent]

/-! ### one field twice -/

/-- two keys of the record spell the same field -/
def Repeats (names : List (List String)) (fs : List (Value × Value)) : Prop :=
  ∃ spellings ∈ names, ∃ key ∈ spellings, ∃ key' ∈ spellings,
    [.text key, .text key'].Sublist (fs.map Prod.fst)

/-- a field that stands in a record is the one that is read -/
theorem fieldsOfRecord?_of_mem {names : List (List String)} {k v : Value} {i : Nat}
    (hk : fieldOf? names k = some (some i)) (hi : i < names.length) {fs : List (Value × Value)}
    (hmem : (k, v) ∈ fs) {values : List (Option Value)}
    (h : fieldsOfRecord? names fs = some values) : values[i]? = some (some v) := by
  obtain ⟨front, back, rfl⟩ := List.append_of_mem hmem
  rw [fieldsOfRecord?_perm names List.perm_middle, fieldsOfRecord?_eq_bind] at h
  obtain ⟨before, hbefore, hput⟩ := Option.bind_eq_some_iff.mp h
  rw [putField_of_some hk] at hput
  rcases place_cases i v before with hnone | hsome
  · rw [hnone] at hput
    cases hput
  · rw [hsome] at hput
    cases hput
    exact List.getElem?_set_self (fieldsOfRecord?_length hbefore ▸ hi)

theorem fieldsOfRecord?_of_repeats {names : List (List String)} (hnames : Distinct names)
    {fs : List (Value × Value)} (h : Repeats names fs) : fieldsOfRecord? names fs = none := by
  obtain ⟨spellings, hspellings, key, hkey, key', hkey', hsub⟩ := h
  obtain ⟨i, hi, hget⟩ := List.getElem_of_mem hspellings
  have hat : names[i]? = some spellings := by rw [List.getElem?_eq_getElem hi, hget]
  have hfield {key : String} (hkey : key ∈ spellings) :
      fieldOf? names (.text key) = some (some i) := fieldOf?_of_mem hnames hat hkey
  obtain ⟨both, hboth, hkeys⟩ := List.sublist_map_iff.mp hsub
  obtain ⟨rest, hperm⟩ := hboth.exists_perm_append
  match both, hkeys with
  | [(k, v), (k', v')], hkeys =>
    cases hkeys
    rw [fieldsOfRecord?_perm names hperm]
    by_contra hne
    obtain ⟨values, hvalues⟩ := Option.ne_none_iff_exists'.mp hne
    rw [List.cons_append, fieldsOfRecord?_eq_bind] at hvalues
    obtain ⟨before, hbefore, hput⟩ := Option.bind_eq_some_iff.mp hvalues
    have htaken := fieldsOfRecord?_of_mem (hfield hkey') hi List.mem_cons_self hbefore
    rw [putField_of_some (f := (.text key, v)) (hfield hkey), place_eq_none htaken] at hput
    cases hput

end VersionFloor.Listing
