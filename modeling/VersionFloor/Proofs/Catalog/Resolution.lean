import Mathlib.Order.Bounds.Basic
import VersionFloor.Proofs.Catalog.Index

/-!
# Catalogs: which symbol a call leads to

The indexes are only a short way to the first symbol of the catalog that fits: what they find is
what a walk over all symbols finds (`locate?_ofSymbols`).
-/

namespace VersionFloor

open Text

/-- what an owner and a name ask of a symbol -/
def Symbol.Fits (s : Symbol) : (owner name : Option String) → Prop
  | some owner, some name => lower s.name = lower name ∧ ∃ o ∈ s.owner, sameAscii o owner = true
  | some owner, none => ∃ o ∈ s.owner, lower o = lower owner
  | none, some name => lower s.name = lower name ∧ s.owner = none
  | none, none => False

instance Symbol.decidableFits (s : Symbol) : (owner name : Option String) →
    Decidable (s.Fits owner name)
  | some owner, some name =>
    inferInstanceAs (Decidable (lower s.name = lower name ∧
      ∃ o ∈ s.owner, sameAscii o owner = true))
  | some owner, none => inferInstanceAs (Decidable (∃ o ∈ s.owner, lower o = lower owner))
  | none, some name => inferInstanceAs (Decidable (lower s.name = lower name ∧ s.owner = none))
  | none, none => .isFalse id

section

variable (s : Symbol)

theorem Symbol.decide_fits_method (owner name : String) :
    decide (s.Fits (some owner) (some name)) =
      (lower s.name == lower name && s.owner.any (sameAscii · owner)) := by
  rw [Bool.eq_iff_iff, decide_eq_true_iff]
  simp [Symbol.Fits, Option.any_eq_true]

theorem Symbol.decide_fits_construction (owner : String) :
    decide (s.Fits (some owner) none) = s.owner.any (lower · == lower owner) := by
  rw [Bool.eq_iff_iff, decide_eq_true_iff]
  simp [Symbol.Fits, Option.any_eq_true]

theorem Symbol.decide_fits_free (name : String) :
    decide (s.Fits none (some name)) = (lower s.name == lower name && s.owner.isNone) := by
  rw [Bool.eq_iff_iff, decide_eq_true_iff]
  simp [Symbol.Fits]

end

namespace Catalog

/-! ### the first of some positions -/

/-- `test` looks at a position, `q` at what stands there -/
theorem find?_findIdxs {α : Type} {p q : α → Bool} {test : Nat → Bool} {xs : List α} {start : Nat}
    (h : ∀ i x, xs[i]? = some x → test (start + i) = q x) :
    (xs.findIdxs p start).find? test =
      (xs.findIdx? fun x => p x && q x).map (start + ·) := by
  induction xs generalizing start with
  | nil => rfl
  | cons x xs ih =>
    have htest : test start = q x := h 0 x rfl
    have hrest : (xs.findIdxs p (start + 1)).find? test =
        (xs.findIdx? fun x => p x && q x).map (start + 1 + ·) :=
      ih fun i y hy => by rw [Nat.add_assoc, Nat.add_comm 1 i, h (i + 1) y hy]
    have hshift : ((xs.findIdx? fun x => p x && q x).map (· + 1)).map (start + ·) =
        (xs.findIdx? fun x => p x && q x).map (start + 1 + ·) := by
      rw [Option.map_map]
      congr 1
      funext i
      show start + (i + 1) = start + 1 + i
      omega
    rw [List.findIdxs_cons, List.findIdx?_cons]
    cases hp : p x with
    | false =>
      rw [if_neg (by decide), hrest, ← hshift]
      rfl
    | true =>
      rw [if_pos rfl, List.find?_cons, htest]
      cases q x with
      | false => rw [hrest, ← hshift]; rfl
      | true => rfl

theorem find?_positions {α : Type} {p q : α → Bool} {test : Nat → Bool} {xs : List α}
    (h : ∀ i x, xs[i]? = some x → test i = q x) :
    (xs.findIdxs p).find? test = xs.findIdx? fun x => p x && q x := by
  have hzero : (0 + · : Nat → Nat) = id := funext Nat.zero_add
  rw [find?_findIdxs fun i x hx => by rw [Nat.zero_add, h i x hx], hzero, Option.map_id, id]

theorem head?_findIdxs {α : Type} (p : α → Bool) (xs : List α) :
    (xs.findIdxs p).head? = xs.findIdx? p := by
  have hfirst : (xs.findIdxs p).find? (fun _ => true) = xs.findIdx? fun x => p x && true :=
    find?_positions fun _ _ _ => rfl
  simp only [Bool.and_true] at hfirst
  rw [← hfirst]
  cases xs.findIdxs p <;> rfl

variable (symbols : List Symbol)

theorem hasOwner_ofSymbols (owner : String) (i : Nat) (s : Symbol) (h : symbols[i]? = some s) :
    (ofSymbols symbols).hasOwner owner i = s.owner.any (sameAscii · owner) := by
  show (symbols[i]?.bind (·.owner)).any (sameAscii · owner) = _
  rw [h]
  rfl

theorem isFree_ofSymbols (i : Nat) (s : Symbol) (h : symbols[i]? = some s) :
    (ofSymbols symbols).isFree i = s.owner.isNone := by
  show symbols[i]?.any (·.owner.isNone) = _
  rw [h]
  rfl

/-- **The indexes find the first symbol that fits.** -/
theorem locate?_ofSymbols (owner name : Option String) :
    (ofSymbols symbols).locate? owner name =
      symbols.findIdx? fun s => decide (s.Fits owner name) := by
  cases owner with
  | some owner =>
    cases name with
    | some name =>
      simp only [Symbol.decide_fits_method]
      rw [locate?, named_ofSymbols, find?_positions (hasOwner_ofSymbols symbols owner)]
    | none =>
      simp only [Symbol.decide_fits_construction]
      rw [locate?, ownedBy_ofSymbols, head?_findIdxs]
  | none =>
    cases name with
    | some name =>
      simp only [Symbol.decide_fits_free]
      rw [locate?, named_ofSymbols, find?_positions (isFree_ofSymbols symbols)]
    | none => exact (List.findIdx?_eq_none_iff.mpr fun _ _ => rfl).symm

/-- the positions of the symbols that fit -/
def fitting (owner name : Option String) : Set Nat :=
  {i | ∃ s : Symbol, symbols[i]? = some s ∧ s.Fits owner name}

theorem locate?_eq_some_iff (owner name : Option String) (i : Nat) :
    (ofSymbols symbols).locate? owner name = some i ↔ IsLeast (fitting symbols owner name) i := by
  rw [locate?_ofSymbols, List.findIdx?_eq_some_iff_getElem]
  constructor
  · rintro ⟨hi, hfits, hbefore⟩
    refine ⟨⟨symbols[i], List.getElem?_eq_getElem hi, of_decide_eq_true hfits⟩, ?_⟩
    rintro j ⟨s, hs, hfits'⟩
    by_contra hlt
    have hj : j < i := by omega
    obtain ⟨hlen, rfl⟩ := List.getElem?_eq_some_iff.mp hs
    exact hbefore j hj (decide_eq_true hfits')
  · rintro ⟨⟨s, hs, hfits⟩, hleast⟩
    obtain ⟨hi, rfl⟩ := List.getElem?_eq_some_iff.mp hs
    refine ⟨hi, decide_eq_true hfits, fun j hj hfits' => ?_⟩
    have hle : i ≤ j := hleast ⟨symbols[j], List.getElem?_eq_getElem _, of_decide_eq_true hfits'⟩
    omega

theorem resolve?_eq_some_iff (owner name : Option String) (s : Symbol) :
    (ofSymbols symbols).resolve? owner name = some s ↔
      ∃ i, IsLeast (fitting symbols owner name) i ∧ symbols[i]? = some s := by
  simp only [← locate?_eq_some_iff]
  exact Option.bind_eq_some_iff

theorem resolve?_eq_none_iff (owner name : Option String) :
    (ofSymbols symbols).resolve? owner name = none ↔ ∀ s ∈ symbols, ¬ s.Fits owner name := by
  have hnone : (ofSymbols symbols).locate? owner name = none ↔
      ∀ s ∈ symbols, ¬ s.Fits owner name := by
    rw [locate?_ofSymbols, List.findIdx?_eq_none_iff]
    simp only [decide_eq_false_iff_not]
  rw [← hnone]
  cases hi : (ofSymbols symbols).locate? owner name with
  | none => simp [resolve?, hi]
  | some i =>
    obtain ⟨⟨s, hs, -⟩, -⟩ := (locate?_eq_some_iff ..).mp hi
    have hsome : (ofSymbols symbols).resolve? owner name = some s :=
      Option.bind_eq_some_iff.mpr ⟨i, hi, hs⟩
    simp [hsome]

variable {symbols}

theorem fits_of_resolve? {owner name : Option String} {s : Symbol}
    (h : (ofSymbols symbols).resolve? owner name = some s) : s.Fits owner name := by
  obtain ⟨i, ⟨⟨s', hs', hfits⟩, -⟩, hs⟩ := (resolve?_eq_some_iff ..).mp h
  rw [hs] at hs'
  cases hs'
  exact hfits

/-- symbols behind those of a catalog come too late to be found instead of one of them -/
theorem locate?_append {owner name : Option String} {i : Nat}
    (h : (ofSymbols symbols).locate? owner name = some i) (more : List Symbol) :
    (ofSymbols (symbols ++ more)).locate? owner name = some i := by
  rw [locate?_ofSymbols] at h ⊢
  rw [List.findIdx?_append, h]
  rfl

theorem resolve?_append {owner name : Option String} {s : Symbol}
    (h : (ofSymbols symbols).resolve? owner name = some s) (more : List Symbol) :
    (ofSymbols (symbols ++ more)).resolve? owner name = some s := by
  obtain ⟨i, hi, hs⟩ := Option.bind_eq_some_iff.mp h
  have hlen : i < symbols.length := (List.getElem?_eq_some_iff.mp hs).1
  refine Option.bind_eq_some_iff.mpr ⟨i, locate?_append hi more, ?_⟩
  show (symbols ++ more)[i]? = some s
  rw [List.getElem?_append_left hlen]
  exact hs

end Catalog

/-- what belongs to a class has an owner, and a free function has none -/
theorem Symbol.Fits.owner_isSome_iff {s : Symbol} {owner name : Option String}
    (h : s.Fits owner name) : s.owner.isSome = owner.isSome := by
  cases owner with
  | some owner =>
    cases name with
    | some name =>
      obtain ⟨-, o, ho, -⟩ := h
      exact Option.isSome_of_mem ho
    | none =>
      obtain ⟨o, ho, -⟩ := h
      exact Option.isSome_of_mem ho
  | none =>
    cases name with
    | some name =>
      obtain ⟨-, hnone⟩ := h
      rw [hnone]
    | none => exact h.elim

namespace Catalog

/-- **A catalog answers like a walk over its symbols**: with the first one that fits, and with
nothing just when none does.  What belongs to a class never answers for a free function or the
other way round, and further symbols change no answer that is there. -/
theorem resolve?_ofSymbols_first (symbols : List Symbol) (owner name : Option String) :
    (∀ i, (ofSymbols symbols).locate? owner name = some i ↔
      IsLeast (fitting symbols owner name) i) ∧
    (∀ s, (ofSymbols symbols).resolve? owner name = some s ↔
      ∃ i, IsLeast (fitting symbols owner name) i ∧ symbols[i]? = some s) ∧
    ((ofSymbols symbols).resolve? owner name = none ↔ ∀ s ∈ symbols, ¬ s.Fits owner name) ∧
    ∀ s, (ofSymbols symbols).resolve? owner name = some s →
      s.owner.isSome = owner.isSome ∧
      ∀ more, (ofSymbols (symbols ++ more)).resolve? owner name = some s := by
  refine ⟨locate?_eq_some_iff symbols owner name, resolve?_eq_some_iff symbols owner name,
    resolve?_eq_none_iff symbols owner name, fun s hs => ⟨?_, fun more => ?_⟩⟩
  · exact (fits_of_resolve? hs).owner_isSome_iff
  · exact resolve?_append hs more

/-- the second `open` stands between two that fit -/
example :
    (ofSymbols [(Symbol.free "open" (some "5.2")).ownedBy "ZipArchive", Symbol.free "Open" none,
        (Symbol.free "OPEN" (some "9.9")).ownedBy "ziparchive"]).locate?
      (some "ZIPARCHIVE") (some "open") = some 0 := by
  decide +kernel

end Catalog

end VersionFloor
