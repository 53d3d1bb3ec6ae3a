import VersionFloor.Proofs.Catalog.Resolution
import VersionFloor.Proofs.Text.Split
import VersionFloor.Proofs.Text.Utf8

/-!
# Catalogs: symbols of bare names

Where no name holds a colon, a qualified name tells its owner and its name apart, in any case.
Symbols that share it fit the same calls (`Symbol.fits_iff_of_lower_eq`), so a catalog never finds
two of them, whatever the calls look like (`Catalog.locate?_unique`).
-/

namespace VersionFloor

open Text

/-- ASCII without a colon -/
def IsBare (s : String) : Prop := ∀ c ∈ s.toList, isAscii c = true ∧ c ≠ ':'

theorem isBare_iff {s : String} :
    s.toList.all (fun c => isAscii c && c != ':') = true ↔ IsBare s := by
  simp [IsBare]

instance (s : String) : Decidable (IsBare s) := decidable_of_iff _ isBare_iff

theorem IsBare.toList_lower {s : String} (h : IsBare s) :
    (lower s).toList = s.toList.map asciiLower :=
  toList_lower_of_isAscii fun c hc => (h c hc).1

theorem eq_colon_of_asciiLower {c : Char} (h : isAscii c = true) (hc : asciiLower c = ':') :
    c = ':' := by
  have hall := of_isAscii (p := fun c => asciiLower c != ':' || c == ':') (by decide +kernel) h
  rw [hc] at hall
  exact beq_iff_eq.mp hall

theorem IsBare.colon_notMem_lower {s : String} (h : IsBare s) : ':' ∉ (lower s).toList := by
  rw [h.toList_lower, List.mem_map]
  rintro ⟨c, hc, hcolon⟩
  exact (h c hc).2 (eq_colon_of_asciiLower (h c hc).1 hcolon)

/-- the name of a symbol and that of its class are bare -/
structure Symbol.IsBare (s : Symbol) : Prop where
  name : VersionFloor.IsBare s.name
  owner : ∀ owner ∈ s.owner, VersionFloor.IsBare owner

instance (s : Symbol) : Decidable s.IsBare :=
  decidable_of_iff (VersionFloor.IsBare s.name ∧ ∀ owner ∈ s.owner, VersionFloor.IsBare owner)
    ⟨fun h => ⟨h.1, h.2⟩, fun h => ⟨h.name, h.owner⟩⟩

theorem IsBare.toList_lower_append {owner name : String} (howner : IsBare owner)
    (hname : IsBare name) :
    (lower (owner ++ "::" ++ name)).toList =
      (lower owner).toList ++ (':' :: [':'] ++ (lower name).toList) := by
  have hcolons : ∀ c ∈ "::".toList, isAscii c = true := List.all_eq_true.mp (by decide)
  have hall : ∀ c ∈ (owner ++ "::" ++ name).toList, isAscii c = true := by
    rw [String.toList_append, String.toList_append, List.forall_mem_append, List.forall_mem_append]
    exact ⟨⟨fun c hc => (howner c hc).1, hcolons⟩, fun c hc => (hname c hc).1⟩
  rw [toList_lower_of_isAscii hall, howner.toList_lower, hname.toList_lower, String.toList_append,
    String.toList_append, List.map_append, List.map_append, List.append_assoc]
  rfl

namespace Symbol

variable {s t : Symbol}

/-- the first two colons of a qualified name stand behind the owner -/
theorem IsBare.splitFirst_qualifiedName (h : s.IsBare) :
    splitFirst [':', ':'] (lower s.qualifiedName).toList =
      s.owner.map fun owner => ((lower owner).toList, (lower s.name).toList) := by
  rw [qualifiedName]
  cases howner : s.owner with
  | none => exact splitFirst_of_not_mem [':'] h.name.colon_notMem_lower
  | some owner =>
    have hbare := h.owner owner howner
    dsimp only
    rw [hbare.toList_lower_append h.name]
    exact splitFirst_append [':'] hbare.colon_notMem_lower _

theorem lower_eq_of_qualifiedName (hs : s.IsBare) (ht : t.IsBare)
    (h : lower s.qualifiedName = lower t.qualifiedName) :
    lower s.name = lower t.name ∧ s.owner.map lower = t.owner.map lower := by
  have hsplit := hs.splitFirst_qualifiedName
  rw [h, ht.splitFirst_qualifiedName] at hsplit
  cases hso : s.owner with
  | none =>
    rw [hso] at hsplit
    have hto := Option.map_eq_none_iff.mp hsplit
    rw [qualifiedName, qualifiedName, hso, hto] at h
    rw [hto]
    exact ⟨h, rfl⟩
  | some o =>
    rw [hso] at hsplit
    obtain ⟨o', hto, heq⟩ := Option.map_eq_some_iff.mp hsplit
    obtain ⟨howner, hname⟩ := Prod.mk.inj heq
    rw [hto]
    exact ⟨(String.toList_injective hname).symm,
      congrArg some (String.toList_injective howner).symm⟩

theorem sameAscii_iff_of_isBare {a b : String} (ha : VersionFloor.IsBare a)
    (hb : VersionFloor.IsBare b) (h : lower a = lower b) (c : String) :
    sameAscii a c = true ↔ sameAscii b c = true := by
  have hab : a.toList.map asciiLower = b.toList.map asciiLower := by
    rw [← ha.toList_lower, ← hb.toList_lower, h]
  rw [sameAscii, sameAscii, hab]

/-- symbols that share their qualified name, up to case, fit the same calls -/
theorem fits_iff_of_lower_eq (hs : s.IsBare) (ht : t.IsBare)
    (h : lower s.qualifiedName = lower t.qualifiedName) (owner name : Option String) :
    s.Fits owner name ↔ t.Fits owner name := by
  obtain ⟨hname, howner⟩ := lower_eq_of_qualifiedName hs ht h
  have hlower (o : String) : (∃ a ∈ s.owner, lower a = o) ↔ ∃ a ∈ t.owner, lower a = o := by
    simp only [← Option.mem_map, howner]
  have hsame (o : String) :
      (∃ a ∈ s.owner, sameAscii a o = true) ↔ ∃ a ∈ t.owner, sameAscii a o = true := by
    cases hso : s.owner with
    | none =>
      rw [hso] at howner
      rw [Option.map_eq_none_iff.mp howner.symm]
    | some a =>
      rw [hso] at howner
      obtain ⟨b, hto, hab⟩ := Option.map_eq_some_iff.mp howner.symm
      have hiff := sameAscii_iff_of_isBare (hs.owner a hso) (ht.owner b hto) hab.symm o
      simpa [hto] using hiff
  cases owner with
  | some owner =>
    cases name with
    | some name => rw [Fits, Fits, hname, hsame]
    | none => exact hlower _
  | none =>
    cases name with
    | some name =>
      have hnone : s.owner = none ↔ t.owner = none := by
        rw [← Option.map_eq_none_iff (f := lower), howner, Option.map_eq_none_iff]
      rw [Fits, Fits, hname, hnone]
    | none => exact Iff.rfl

end Symbol

namespace Catalog

/-- where all symbols are bare, calls that lead to the same qualified name lead to the same
symbol -/
theorem locate?_unique {symbols : List Symbol} (hbare : ∀ s ∈ symbols, s.IsBare)
    {owner name owner' name' : Option String} {i j : Nat}
    (hi : (ofSymbols symbols).locate? owner name = some i)
    (hj : (ofSymbols symbols).locate? owner' name' = some j) {s t : Symbol}
    (hs : symbols[i]? = some s) (ht : symbols[j]? = some t)
    (h : lower s.qualifiedName = lower t.qualifiedName) : i = j := by
  have hsbare := hbare s (List.mem_of_getElem? hs)
  have htbare := hbare t (List.mem_of_getElem? ht)
  have hfits := Symbol.fits_iff_of_lower_eq hsbare htbare h
  rw [locate?_eq_some_iff] at hi hj
  obtain ⟨⟨s', hs', hsfits⟩, hileast⟩ := hi
  obtain ⟨⟨t', ht', htfits⟩, hjleast⟩ := hj
  obtain rfl : s = s' := Option.some.inj (hs.symm.trans hs')
  obtain rfl : t = t' := Option.some.inj (ht.symm.trans ht')
  -- each of the two fits the call that led to the other
  have hij : i ≤ j := hileast ⟨t, ht, (hfits owner name).mp hsfits⟩
  have hji : j ≤ i := hjleast ⟨s, hs, (hfits owner' name').mpr htfits⟩
  exact Nat.le_antisymm hij hji

end Catalog

end VersionFloor
