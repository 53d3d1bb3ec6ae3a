import Mathlib.Data.List.Basic
import VersionFloor.Catalog.Basic
import VersionFloor.Proofs.Keyed

/-!
# Catalogs: what the two indexes hold

Under every key stand the positions of the symbols that have it, in ascending order and each once,
just as a walk over all symbols finds them (`named_ofSymbols`, `ownedBy_ofSymbols`).  So nothing is
missing from an index, nothing stands in it twice, and every position leads to a symbol
(`indexes_complete`).
-/

namespace VersionFloor.Catalog

open Text

/-- whether a symbol stands under a key -/
def hasKey (key? : Symbol → Option String) (key : String) (s : Symbol) : Bool :=
  (key? s).any (lower · == key)

/-- one symbol and its position come into the index -/
def enter (key? : Symbol → Option String) (t : Keyed (List Nat)) (e : Symbol × Nat) :
    Keyed (List Nat) :=
  match key? e.1 with
  | some key => t.addPosition (lower key) e.2
  | none => t

theorem getD_find?_addPosition (t : Keyed (List Nat)) (k key : String) (i : Nat) :
    ((t.addPosition k i).find? key).getD [] =
      (t.find? key).getD [] ++ if k = key then [i] else [] := by
  rw [Keyed.addPosition, Keyed.find?_put]
  by_cases h : key = k
  · subst h
    rw [if_pos rfl, if_pos rfl]
    rfl
  · rw [if_neg h, if_neg fun he => h he.symm, List.append_nil]

theorem getD_find?_enter (key? : Symbol → Option String) (t : Keyed (List Nat)) (s : Symbol)
    (i : Nat) (key : String) :
    ((enter key? t (s, i)).find? key).getD [] =
      (t.find? key).getD [] ++ if hasKey key? key s then [i] else [] := by
  rw [enter, hasKey]
  cases key? s with
  | none => exact (List.append_nil _).symm
  | some k =>
    rw [Option.any_some]
    show ((t.addPosition (lower k) i).find? key).getD [] = _
    rw [getD_find?_addPosition]
    simp only [beq_iff_eq]

/-- a walk adds to the positions of a key those where the symbols have it -/
theorem getD_find?_foldl (key? : Symbol → Option String) (key : String) (symbols : List Symbol)
    (start : Nat) (t : Keyed (List Nat)) :
    (((symbols.zipIdx start).foldl (enter key?) t).find? key).getD [] =
      (t.find? key).getD [] ++ symbols.findIdxs (hasKey key? key) start := by
  induction symbols generalizing start t with
  | nil => exact (List.append_nil _).symm
  | cons s symbols ih =>
    rw [List.zipIdx_cons, List.foldl_cons, ih, getD_find?_enter, List.append_assoc,
      List.findIdxs_cons]
    split <;> rfl

theorem getD_find?_index (key? : Symbol → Option String) (symbols : List Symbol) (key : String) :
    ((index key? symbols).find? key).getD [] = symbols.findIdxs (hasKey key? key) :=
  getD_find?_foldl key? key symbols 0 ∅

variable (symbols : List Symbol)

theorem named_ofSymbols (name : String) :
    (ofSymbols symbols).named name = symbols.findIdxs fun s => lower s.name == lower name :=
  getD_find?_index (fun s => some s.name) symbols (lower name)

theorem ownedBy_ofSymbols (owner : String) :
    (ofSymbols symbols).ownedBy owner =
      symbols.findIdxs fun s => s.owner.any (lower · == lower owner) :=
  getD_find?_index (·.owner) symbols (lower owner)

/-! ### lists of positions -/

/-- a list of the positions of all symbols that pass a test -/
structure Enumerates (positions : List Nat) (symbols : List Symbol) (p : Symbol → Bool) : Prop where
  /-- in the order of the catalog, each once -/
  ascending : positions.Pairwise (· < ·)
  mem_iff : ∀ i, i ∈ positions ↔ ∃ s, symbols[i]? = some s ∧ p s = true
  /-- no position lies behind the last symbol -/
  found : positions.map (symbols[·]?) = (symbols.filter p).map some

theorem mem_findIdxs_iff {p : Symbol → Bool} {i : Nat} :
    i ∈ symbols.findIdxs p ↔ ∃ s, symbols[i]? = some s ∧ p s = true := by
  rw [List.mem_findIdxs_iff_exists_getElem_pos]
  constructor
  · rintro ⟨hi, hp⟩
    exact ⟨symbols[i], List.getElem?_eq_getElem hi, hp⟩
  · rintro ⟨s, hs, hp⟩
    obtain ⟨hi, rfl⟩ := List.getElem?_eq_some_iff.mp hs
    exact ⟨hi, hp⟩

theorem map_getElem?_findIdxs {α : Type} (p : α → Bool) (xs : List α) :
    (xs.findIdxs p).map (xs[·]?) = (xs.filter p).map some := by
  induction xs with
  | nil => rfl
  | cons x xs ih =>
    have hrest : (xs.findIdxs p 1).map ((x :: xs)[·]?) = (xs.filter p).map some := by
      rw [List.findIdxs_start, List.map_map, ← ih]
      rfl
    rw [List.findIdxs_cons, List.filter_cons]
    split
    · rw [List.map_cons, List.map_cons, hrest]
      rfl
    · exact hrest

theorem enumerates_findIdxs (p : Symbol → Bool) : Enumerates (symbols.findIdxs p) symbols p where
  ascending := List.pairwise_findIdxs
  mem_iff _ := mem_findIdxs_iff symbols
  found := map_getElem?_findIdxs p symbols

theorem enumerates_named (name : String) :
    Enumerates ((ofSymbols symbols).named name) symbols fun s => lower s.name == lower name := by
  rw [named_ofSymbols]
  exact enumerates_findIdxs symbols _

theorem enumerates_ownedBy (owner : String) :
    Enumerates ((ofSymbols symbols).ownedBy owner) symbols
      fun s => s.owner.any (lower · == lower owner) := by
  rw [ownedBy_ofSymbols]
  exact enumerates_findIdxs symbols _

/-! ### the keys of a position -/

/-- a position stands under a key -/
def StandsUnder (t : Keyed (List Nat)) (key : String) (i : Nat) : Prop :=
  ∃ positions, (key, positions) ∈ t.entries ∧ i ∈ positions

theorem standsUnder_iff {t : Keyed (List Nat)} {key : String} {i : Nat} :
    StandsUnder t key i ↔ i ∈ (t.find? key).getD [] := by
  simp only [StandsUnder, Keyed.mem_entries_iff]
  cases t.find? key with
  | none => simp
  | some positions => simp

theorem standsUnder_index_iff {key? : Symbol → Option String} {key : String} {i : Nat} :
    StandsUnder (index key? symbols) key i ↔
      ∃ s, symbols[i]? = some s ∧ ∃ k ∈ key? s, lower k = key := by
  rw [standsUnder_iff, getD_find?_index, mem_findIdxs_iff]
  simp only [hasKey, Option.any_eq_true, beq_iff_eq, Option.mem_def]

/-- a position stands under one key, that of its symbol, or under none -/
theorem existsUnique_standsUnder_index_iff {key? : Symbol → Option String} {i : Nat} :
    (∃! key, StandsUnder (index key? symbols) key i) ↔
      ∃ s, symbols[i]? = some s ∧ (key? s).isSome = true := by
  simp only [standsUnder_index_iff]
  constructor
  · rintro ⟨-, ⟨s, hs, k, hk, -⟩, -⟩
    exact ⟨s, hs, Option.isSome_of_mem hk⟩
  · rintro ⟨s, hs, hsome⟩
    obtain ⟨k, hk⟩ := Option.isSome_iff_exists.mp hsome
    refine ⟨lower k, ⟨s, hs, k, hk, rfl⟩, ?_⟩
    rintro key ⟨s', hs', k', hk', rfl⟩
    obtain rfl : s = s' := Option.some.inj (hs.symm.trans hs')
    obtain rfl : k = k' := Option.some.inj (hk.symm.trans hk')
    rfl

theorem standsUnder_byName_iff {key : String} {i : Nat} :
    StandsUnder (ofSymbols symbols).byName key i ↔
      ∃ s, symbols[i]? = some s ∧ lower s.name = key := by
  have hkey : StandsUnder (ofSymbols symbols).byName key i ↔
      ∃ s, symbols[i]? = some s ∧ ∃ k ∈ some s.name, lower k = key :=
    standsUnder_index_iff symbols
  simpa using hkey

theorem standsUnder_byOwner_iff {key : String} {i : Nat} :
    StandsUnder (ofSymbols symbols).byOwner key i ↔
      ∃ s, symbols[i]? = some s ∧ ∃ o ∈ s.owner, lower o = key :=
  standsUnder_index_iff symbols

/-- every symbol has a name, so every position stands under one -/
theorem existsUnique_standsUnder_byName_iff {i : Nat} :
    (∃! key, StandsUnder (ofSymbols symbols).byName key i) ↔ i < symbols.length := by
  have hunique : (∃! key, StandsUnder (ofSymbols symbols).byName key i) ↔
      ∃ s, symbols[i]? = some s ∧ (some s.name).isSome = true :=
    existsUnique_standsUnder_index_iff symbols
  rw [hunique]
  constructor
  · rintro ⟨s, hs, -⟩
    exact (List.getElem?_eq_some_iff.mp hs).1
  · intro hi
    exact ⟨symbols[i], List.getElem?_eq_getElem hi, rfl⟩

/-- **The indexes of a catalog are complete and in order.**  A name leads to all symbols of that
name and an owner to all that belong to it, up to case, each once and in the order of the catalog,
and never behind the last symbol.  Every position stands under one name, and under one owner just
when its symbol has one. -/
theorem indexes_complete :
    (∀ name, Enumerates ((ofSymbols symbols).named name) symbols
      fun s => lower s.name == lower name) ∧
    (∀ owner, Enumerates ((ofSymbols symbols).ownedBy owner) symbols
      fun s => s.owner.any (lower · == lower owner)) ∧
    ∀ i,
      ((∃! key, StandsUnder (ofSymbols symbols).byName key i) ↔ i < symbols.length) ∧
      ((∃! key, StandsUnder (ofSymbols symbols).byOwner key i) ↔
        ∃ s, symbols[i]? = some s ∧ s.owner.isSome = true) ∧
      ∀ key,
        (StandsUnder (ofSymbols symbols).byName key i ↔
          ∃ s, symbols[i]? = some s ∧ lower s.name = key) ∧
        (StandsUnder (ofSymbols symbols).byOwner key i ↔
          ∃ s, symbols[i]? = some s ∧ ∃ o ∈ s.owner, lower o = key) := by
  refine ⟨enumerates_named symbols, enumerates_ownedBy symbols, fun i => ⟨?_, ?_, fun key => ?_⟩⟩
  · exact existsUnique_standsUnder_byName_iff symbols
  · exact existsUnique_standsUnder_index_iff symbols
  · exact ⟨standsUnder_byName_iff symbols, standsUnder_byOwner_iff symbols⟩

/-- one name in three spellings, two of them of one class -/
example :
    let c := ofSymbols [(Symbol.free "open" none).ownedBy "ZipArchive",
      (Symbol.free "Open" none).ownedBy "Other", (Symbol.free "OPEN" none).ownedBy "ziparchive"]
    c.named "oPEN" = [0, 1, 2] ∧ c.ownedBy "ZIPARCHIVE" = [0, 2] ∧ c.named "missing" = [] := by
  decide +kernel

end VersionFloor.Catalog
