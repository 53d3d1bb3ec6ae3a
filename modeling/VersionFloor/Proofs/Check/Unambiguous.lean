import VersionFloor.Proofs.Catalog.Bare
import VersionFloor.Proofs.Check.Meaning

/-!
# Checks: one symbol for each name

A catalog may describe a function more than once, in any case, and calls find it by its name, by its
class or by both.  Where names are bare, all calls of a check that lead to a qualified name lead to
the same position of the catalog, so no function is reported both with and without a version
(`runWith_unambiguous`).
-/

namespace VersionFloor.Check

open Text Tally

/-- the positions of the catalog that calls in the source files lead to -/
def located (c : Check) (disk : Disk) (d : Discovery) : Set Nat :=
  {i | ∃ path ∈ d.files disk, ∃ bytes, disk.read path = .ok bytes ∧
    ∃ call ∈ Source.calls (decodeLossy bytes), c.catalog.locate? call.owner? call.name? = some i}

variable {c : Check} {disk : Disk} {d : Discovery}

theorem exists_located {s : Symbol} (h : s ∈ c.used disk d) :
    ∃ i ∈ c.located disk d, c.catalog.symbols[i]? = some s := by
  obtain ⟨⟨path, hpath, bytes, hread, call, hcall, hs⟩, -⟩ := h
  obtain ⟨i, hi, hs⟩ := Option.bind_eq_some_iff.mp hs
  exact ⟨i, ⟨path, hpath, bytes, hread, call, hcall, hi⟩, hs⟩

section

variable {symbols : List Symbol} (hcatalog : c.catalog = .ofSymbols symbols)
  (hbare : ∀ s ∈ symbols, s.IsBare)

include hcatalog hbare

theorem located_unique {i j : Nat} (hi : i ∈ c.located disk d) (hj : j ∈ c.located disk d)
    {s t : Symbol} (hs : symbols[i]? = some s) (ht : symbols[j]? = some t)
    (h : lower s.qualifiedName = lower t.qualifiedName) : i = j := by
  obtain ⟨_, _, _, _, _, _, hi⟩ := hi
  obtain ⟨_, _, _, _, _, _, hj⟩ := hj
  rw [hcatalog] at hi hj
  exact Catalog.locate?_unique hbare hi hj hs ht h

/-- a qualified name that is used belongs to one symbol -/
theorem used_unique {s t : Symbol} (hs : s ∈ c.used disk d) (ht : t ∈ c.used disk d)
    (h : lower s.qualifiedName = lower t.qualifiedName) : s = t := by
  obtain ⟨i, hi, hs⟩ := exists_located hs
  obtain ⟨j, hj, ht⟩ := exists_located ht
  rw [hcatalog] at hs ht
  obtain rfl := located_unique hcatalog hbare hi hj hs ht h
  exact Option.some.inj (hs.symm.trans ht)

/-- **Every function that is used has one source**, and so the report lists it with a version or
without one, in one spelling. -/
theorem runWith_unambiguous (root : Path) {pool : List Path → Except CheckError Tally}
    (hpool : c.IsPool disk pool) (hd : discover disk root c.selection = .ok d) :
    (∀ i ∈ c.located disk d, ∀ j ∈ c.located disk d, ∀ s t : Symbol,
      symbols[i]? = some s → symbols[j]? = some t →
        lower s.qualifiedName = lower t.qualifiedName → i = j) ∧
    ∀ r, c.runWith pool disk root = .ok r →
      (∀ n ∈ r.unversioned, n ∈ r.functions) ∧
      ∀ n ∈ r.unversioned, ∀ s ∈ c.used disk d,
        lower s.qualifiedName = lower n → s.minVersion = none := by
  refine ⟨fun i hi j hj s t hs ht h => located_unique hcatalog hbare hi hj hs ht h,
    fun r hr => ?_⟩
  have hdescribes : r.Describes (c.used disk d) := by
    rw [runWith_eq hpool, hd] at hr
    rw [outcome_eq_ok hr, ← recorded_events]
    exact (describes_ofEvents _).report
  -- whoever is listed without a version is the only one of this name
  have hsource : ∀ n ∈ r.unversioned, ∃ s ∈ c.used disk d, s.minVersion = none ∧
      s.qualifiedName = n ∧ ∀ t ∈ c.used disk d, lower t.qualifiedName = lower n → t = s := by
    intro n hn
    obtain ⟨⟨⟨s, ⟨hs, hnone⟩, rfl⟩, -⟩, -⟩ := (hdescribes.unversioned.mem_iff n).mp hn
    exact ⟨s, hs, hnone, rfl, fun t ht h => used_unique hcatalog hbare ht hs h⟩
  refine ⟨fun n hn => ?_, fun n hn t ht h => ?_⟩
  · obtain ⟨s, hs, -, rfl, honly⟩ := hsource n hn
    rw [hdescribes.functions.mem_iff]
    refine ⟨⟨⟨s, hs, rfl⟩, rfl⟩, ?_⟩
    rintro m ⟨⟨t, ht, rfl⟩, h⟩
    rw [honly t ht h]
  · obtain ⟨s, -, hnone, -, honly⟩ := hsource n hn
    rw [honly t ht h, hnone]

end

/-- one function with a version, then again without, and a class named in two ways -/
def twice : List Symbol :=
  [(Symbol.free "open" (some "5.2")).ownedBy "ZipArchive",
    (Symbol.free "OPEN" none).ownedBy "ziparchive", Symbol.free "open" none]

def twiceUses : Disk :=
  (((Disk.bare ["work"]).put ⟨"a.php"⟩ (.file (encode "<?php new ZIPARCHIVE();"))).put ⟨"b.php"⟩
    (.file (encode "<?php zipArchive::Open();"))).put ⟨"c.php"⟩ (.file (encode "<?php open($f);"))

theorem runWith_unambiguous_twice :
    ∃ r d, (∀ s ∈ twice, s.IsBare) ∧
      (plain (.ofSymbols twice)).IsPool twiceUses
        ((plain (.ofSymbols twice)).halvesPool twiceUses) ∧
      discover twiceUses ⟨"."⟩ (plain (.ofSymbols twice)).selection = .ok d ∧
      (plain (.ofSymbols twice)).runWith ((plain (.ofSymbols twice)).halvesPool twiceUses) twiceUses
        ⟨"."⟩ = .ok r ∧
      r.unversioned = ["open"] ∧ r.functions = ["open", "ZipArchive::open"] ∧
      ∀ n ∈ r.unversioned, n ∈ r.functions := by
  let c := plain (.ofSymbols twice)
  have hbare : ∀ s ∈ twice, s.IsBare := by decide +kernel
  have hpool := isPool_halvesPool c twiceUses
  have hfound : (discover twiceUses ⟨"."⟩ c.selection).toOption.any (fun _ => true) = true := by
    decide +kernel
  have hlists : (c.runWith (c.halvesPool twiceUses) twiceUses ⟨"."⟩).toOption.any
      (fun r => r.unversioned == ["open"] &&
        r.functions == ["open", "ZipArchive::open"]) = true := by
    decide +kernel
  obtain ⟨d, hd, -⟩ := exists_ok_of_any hfound
  obtain ⟨r, hr, hlists⟩ := exists_ok_of_any hlists
  rw [Bool.and_eq_true, beq_iff_eq, beq_iff_eq] at hlists
  obtain ⟨-, hreport⟩ := runWith_unambiguous (c := c) rfl hbare ⟨"."⟩ hpool hd
  exact ⟨r, d, hbare, hpool, hd, hr, hlists.1, hlists.2, (hreport r hr).1⟩

end VersionFloor.Check
