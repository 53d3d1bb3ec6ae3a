import VersionFloor.Proofs.Report.Meaning
import VersionFloor.Proofs.Tally.Merge

/-!
# Tallies: what one says of the symbols recorded

`Tally.Describes` speaks of a set of symbols and not of the events that brought them: a merge
describes the symbols of both sides, so the tally of some events describes the symbols among them
(`describes_ofEvents`), and so does its report.
-/

namespace VersionFloor

open Text

/-! ### tables -/

namespace Keyed

variable {α β : Type}

/-- under every key stands what represents the things that have this key -/
def Holds (P : Set β → α → Prop) (key : β → String) (bs : Set β) (t : Keyed α) : Prop :=
  ∀ k, Represents P {b ∈ bs | key b = k} (t.find? k)

variable {P : Set β → α → Prop} {key : β → String}

theorem holds_empty : Holds P key ∅ ∅ := fun _ => Set.sep_empty _

theorem holds_single (f : α → α → α) {b : β} {a : α} (h : P {b} a) :
    Holds P key {b} (Keyed.add f ∅ (key b) a) := by
  intro k
  rw [find?_add, find?_empty, Option.merge_none_left]
  by_cases hk : k = key b
  · have hall : {c ∈ ({b} : Set β) | key c = k} = {b} :=
      Set.sep_eq_self_iff_mem_true.mpr fun c hc => hk ▸ congrArg key hc
    rw [if_pos hk, hall]
    exact h
  · rw [if_neg hk]
    exact Set.sep_eq_empty_iff_mem_false.mpr fun c hc hkc => hk (hkc ▸ congrArg key hc)

theorem Holds.union {f : α → α → α} {bs cs : Set β} {s t : Keyed α}
    (hf : ∀ {bs cs : Set β} {a b : α}, P bs a → P cs b → P (bs ∪ cs) (f a b))
    (hs : Holds P key bs s) (ht : Holds P key cs t) : Holds P key (bs ∪ cs) (s.union f t) := by
  intro k
  have hboth : {b ∈ bs ∪ cs | key b = k} = {b ∈ bs | key b = k} ∪ {b ∈ cs | key b = k} :=
    Set.union_inter_distrib_right ..
  rw [find?_union, hboth]
  exact Represents.union hf (hs k) (ht k)

end Keyed

/-! ### spellings -/

namespace Spellings

/-- under its lower case every name stands in its smallest spelling -/
def Spells (t : Spellings) (names : Set String) : Prop := Keyed.Holds IsLeast lower names t

theorem isLeast_union_smaller {as bs : Set String} {a b : String} (ha : IsLeast as a)
    (hb : IsLeast bs b) : IsLeast (as ∪ bs) (smaller a b) := by
  rw [smaller_eq_min]
  exact ha.union hb

theorem spells_empty : Spells ∅ ∅ := Keyed.holds_empty

theorem spells_add (n : String) : Spells (Spellings.add ∅ n) {n} :=
  Keyed.holds_single smaller isLeast_singleton

theorem Spells.join {s t : Spellings} {as bs : Set String} (hs : s.Spells as)
    (ht : t.Spells bs) : (s.join t).Spells (as ∪ bs) :=
  Keyed.Holds.union isLeast_union_smaller hs ht

end Spellings

/-! ### uses of an extension -/

namespace ExtensionUse

/-- these go by this name at the least, and this is the highest of their versions -/
def Joins (xs : Set Extension) (e : ExtensionUse) : Prop :=
  IsLeast (Extension.name '' xs) e.name ∧ Version.IsHighest (given (·.minVersion) xs) e.required

theorem Joins.union {xs ys : Set Extension} {a b : ExtensionUse} (ha : Joins xs a)
    (hb : Joins ys b) : Joins (xs ∪ ys) (join a b) := by
  refine ⟨?_, ?_⟩
  · rw [Set.image_union]
    exact Spellings.isLeast_union_smaller ha.1 hb.1
  · rw [given_union]
    exact ha.2.union hb.2

theorem joins_singleton (x : Extension) : Joins {x} ⟨x.name, x.minVersion⟩ := by
  refine ⟨?_, ?_⟩
  · rw [Set.image_singleton]
    exact isLeast_singleton
  · rw [given_singleton]
    exact Version.isHighest_self _

end ExtensionUse

/-! ### tallies -/

namespace Tally

/-- what a tally says of the symbols that were recorded -/
structure Describes (t : Tally) (used : Set Symbol) : Prop where
  required : Version.IsHighest (given (·.minVersion) used) t.required
  functions : t.functions.Spells (Symbol.qualifiedName '' used)
  classes : t.classes.Spells (given (·.owner) used)
  extensions :
    t.extensions.Holds ExtensionUse.Joins (fun x => lower x.name) (given (·.extension) used)
  isUncertain : t.isUncertain = true ↔ ∃ s ∈ used, s.minVersion = none
  unversioned : t.unversioned.Spells (Symbol.qualifiedName '' {s ∈ used | s.minVersion = none})

theorem describes_empty : (∅ : Tally).Describes ∅ where
  required := given_empty _
  functions := by
    rw [Set.image_empty]
    exact Spellings.spells_empty
  classes := by
    rw [given_empty]
    exact Spellings.spells_empty
  extensions := by
    rw [given_empty]
    exact Keyed.holds_empty
  isUncertain := ⟨nofun, fun ⟨_, h, _⟩ => absurd h (Set.notMem_empty _)⟩
  unversioned := by
    rw [Set.sep_empty, Set.image_empty]
    exact Spellings.spells_empty

/-- one symbol, recorded in an empty tally -/
theorem describes_record (s : Symbol) : (Tally.record ∅ s).Describes {s} where
  required := by
    show Version.IsHighest _ (Version.larger? none s.minVersion)
    rw [Version.none_larger?, given_singleton]
    exact Version.isHighest_self _
  functions := by
    rw [Set.image_singleton]
    exact Spellings.spells_add _
  classes := by
    show Spellings.Spells (s.owner.elim ∅ (Spellings.add ∅)) _
    rw [given_singleton]
    cases s.owner with
    | none => exact setOf_none_eq ▸ Spellings.spells_empty
    | some owner => exact setOf_some_eq owner ▸ Spellings.spells_add owner
  extensions := by
    show Keyed.Holds _ _ _ (s.extension.elim ∅ (addExtension ∅))
    rw [given_singleton]
    cases s.extension with
    | none => exact setOf_none_eq ▸ Keyed.holds_empty
    | some x =>
      exact setOf_some_eq x ▸ Keyed.holds_single _ (ExtensionUse.joins_singleton x)
  isUncertain := by
    show (false || s.minVersion.isNone) = true ↔ _
    rw [Bool.false_or, Option.isNone_iff_eq_none]
    exact ⟨fun h => ⟨s, rfl, h⟩, fun ⟨_, hx, h⟩ => hx ▸ h⟩
  unversioned := by
    show Spellings.Spells (if s.minVersion.isNone then Spellings.add ∅ s.qualifiedName else ∅) _
    cases hv : s.minVersion with
    | none =>
      have hall : {x ∈ ({s} : Set Symbol) | x.minVersion = none} = {s} :=
        Set.sep_eq_self_iff_mem_true.mpr fun x hx => hx ▸ hv
      rw [hall, Set.image_singleton]
      exact Spellings.spells_add _
    | some v =>
      have hno : {x ∈ ({s} : Set Symbol) | x.minVersion = none} = ∅ :=
        Set.sep_eq_empty_iff_mem_false.mpr fun x hx h => by
          rw [show x = s from hx, hv] at h
          cases h
      rw [hno, Set.image_empty]
      exact Spellings.spells_empty

theorem Describes.merge {s t : Tally} {as bs : Set Symbol} (hs : s.Describes as)
    (ht : t.Describes bs) : (s.merge t).Describes (as ∪ bs) where
  required := by
    rw [given_union]
    exact hs.required.union ht.required
  functions := by
    rw [Set.image_union]
    exact hs.functions.join ht.functions
  classes := by
    rw [given_union]
    exact hs.classes.join ht.classes
  extensions := by
    rw [given_union]
    exact Keyed.Holds.union ExtensionUse.Joins.union hs.extensions ht.extensions
  isUncertain := by
    show (s.isUncertain || t.isUncertain) = true ↔ _
    rw [Bool.or_eq_true, hs.isUncertain, ht.isUncertain]
    constructor
    · rintro (⟨x, hx, hv⟩ | ⟨x, hx, hv⟩)
      · exact ⟨x, .inl hx, hv⟩
      · exact ⟨x, .inr hx, hv⟩
    · rintro ⟨x, hx | hx, hv⟩
      · exact .inl ⟨x, hx, hv⟩
      · exact .inr ⟨x, hx, hv⟩
  unversioned := by
    have hboth : {x ∈ as ∪ bs | x.minVersion = none} =
        {x ∈ as | x.minVersion = none} ∪ {x ∈ bs | x.minVersion = none} :=
      Set.union_inter_distrib_right ..
    rw [hboth, Set.image_union]
    exact hs.unversioned.join ht.unversioned

/-- the symbols among some events -/
def recorded (es : List Event) : Set Symbol := {s | .used s ∈ es}

theorem describes_ofEvent (e : Event) : (ofEvent e).Describes (recorded [e]) := by
  have h := describes_empty
  have hno (hne : ∀ s, e ≠ .used s) : recorded [e] = ∅ :=
    Set.eq_empty_of_forall_notMem fun s hs => hne s (List.mem_singleton.mp hs).symm
  cases e with
  | used s =>
    have hs : recorded [.used s] = {s} := by
      ext x
      show Event.used x ∈ [Event.used s] ↔ x = s
      rw [List.mem_singleton, Event.used.injEq]
    exact hs ▸ describes_record s
  | scanned =>
    rw [hno fun s => Event.noConfusion]
    exact ⟨h.required, h.functions, h.classes, h.extensions, h.isUncertain, h.unversioned⟩
  | skipped s =>
    rw [hno fun s => Event.noConfusion]
    exact ⟨h.required, h.functions, h.classes, h.extensions, h.isUncertain, h.unversioned⟩

/-- the tally of some events describes the symbols among them -/
theorem describes_ofEvents (es : List Event) : (ofEvents es).Describes (recorded es) := by
  induction es with
  | nil =>
    have hnil : recorded [] = ∅ := Set.eq_empty_of_forall_notMem fun s => List.not_mem_nil
    rw [ofEvents, List.foldl_nil, hnil]
    exact describes_empty
  | cons e es ih =>
    have hcons : recorded (e :: es) = recorded [e] ∪ recorded es := by
      ext s
      show .used s ∈ e :: es ↔ .used s ∈ [e] ∨ .used s ∈ es
      rw [List.mem_cons, List.mem_singleton]
    rw [ofEvents_cons, hcons]
    exact (describes_ofEvent e).merge ih

end Tally

/-! ### reports -/

/-- a list of texts whose lower cases are the keys of a table -/
theorem lists_of_find? {entries : List String} {names : Set String} {o : String → Option String}
    (hasc : entries.Pairwise fun a b => lower a < lower b)
    (hmem : ∀ n, n ∈ entries ↔ ∃ k, o k = some n)
    (hleast : ∀ k, Represents IsLeast {m ∈ names | lower m = k} (o k)) : Lists entries names := by
  have hsome : ∀ {k n}, o k = some n → IsLeast {m ∈ names | lower m = k} n := by
    intro k n ho
    have h := hleast k
    rw [ho] at h
    exact h
  have hfound : ∀ m ∈ names, ∃ n, o (lower m) = some n := by
    intro m hm
    have h := hleast (lower m)
    cases ho : o (lower m) with
    | some n => exact ⟨n, rfl⟩
    | none =>
      rw [ho] at h
      exact absurd (show m ∈ {m' ∈ names | lower m' = lower m} from ⟨hm, rfl⟩)
        (Set.eq_empty_iff_forall_notMem.mp h m)
  refine ⟨hasc, fun n => ?_, fun m hm => ?_⟩
  · rw [hmem]
    constructor
    · rintro ⟨k, ho⟩
      have h := hsome ho
      rw [h.1.2]
      exact h
    · intro h
      obtain ⟨n', ho⟩ := hfound n h.1.1
      exact ⟨lower n, by rw [ho, (hsome ho).unique h]⟩
  · obtain ⟨n, ho⟩ := hfound m hm
    exact ⟨n, (hmem n).mpr ⟨_, ho⟩, (hsome ho).1.2⟩

theorem Spellings.Spells.lists {t : Spellings} {names : Set String} (h : t.Spells names) :
    Lists t.values names := by
  refine lists_of_find? (Keyed.pairwise_values lower fun k n ho => ?_)
    (fun n => Keyed.mem_values_iff) h
  have hk := h k
  rw [ho] at hk
  exact hk.1.2

namespace Tally.Describes

variable {t : Tally} {used : Set Symbol}

theorem joins_of_find? (h : t.Describes used) {k : String} {e : ExtensionUse}
    (he : t.extensions.find? k = some e) :
    ExtensionUse.Joins {x ∈ given (·.extension) used | lower x.name = k} e ∧
      lower e.name = k := by
  have hk := h.extensions k
  rw [he] at hk
  obtain ⟨x, hx, hname⟩ := hk.1.1
  have hkey : lower x.name = k := hx.2
  exact ⟨hk, hname ▸ hkey⟩

theorem lists_extensions (h : t.Describes used) :
    Lists (t.extensions.values.map (·.name)) (Extension.name '' given (·.extension) used) := by
  have hkey : ∀ k e, t.extensions.find? k = some e → lower e.name = k :=
    fun k e he => (h.joins_of_find? he).2
  have hasc := Keyed.pairwise_values (fun e : ExtensionUse => lower e.name) hkey
  refine lists_of_find? (o := fun k => (t.extensions.find? k).map (·.name))
    (List.pairwise_map.mpr hasc) (fun n => ?_) (fun k => ?_)
  · constructor
    · intro hn
      obtain ⟨e, he, rfl⟩ := List.mem_map.mp hn
      obtain ⟨k, hk⟩ := Keyed.mem_values_iff.mp he
      exact ⟨k, by rw [hk, Option.map_some]⟩
    · rintro ⟨k, hk⟩
      obtain ⟨e, he, rfl⟩ := Option.map_eq_some_iff.mp hk
      exact List.mem_map_of_mem (Keyed.mem_values_iff.mpr ⟨k, he⟩)
  · have himage : {m ∈ Extension.name '' given (·.extension) used | lower m = k} =
        Extension.name '' {x ∈ given (·.extension) used | lower x.name = k} := by
      ext m
      constructor
      · rintro ⟨⟨x, hx, rfl⟩, hk⟩
        exact ⟨x, ⟨hx, hk⟩, rfl⟩
      · rintro ⟨x, ⟨hx, hk⟩, rfl⟩
        exact ⟨⟨x, hx, rfl⟩, hk⟩
    have hk := h.extensions k
    rw [himage]
    cases he : t.extensions.find? k with
    | none =>
      rw [he] at hk
      exact Set.image_eq_empty.mpr hk
    | some e =>
      rw [he] at hk
      exact hk.1

/-- what a tally says, its report says -/
theorem report (h : t.Describes used) : t.report.Describes used where
  required := h.required
  functions := h.functions.lists
  classes := h.classes.lists
  extensions := h.lists_extensions
  extensionVersions e he := by
    obtain ⟨k, hk⟩ := Keyed.mem_values_iff.mp he
    obtain ⟨hjoins, hname⟩ := h.joins_of_find? hk
    rw [hname]
    exact hjoins.2
  isUncertain := h.isUncertain
  unversioned := h.unversioned.lists

end Tally.Describes

end VersionFloor
