import VersionFloor.Proofs.Catalog.Resolution
import VersionFloor.Proofs.Text.Case
import VersionFloor.Source.Call

/-!
# Catalogs: the class of a construction and of a method

A construction compares classes in lower case, a method up to the case of ASCII letters only, so
what a construction leads to is led to by a method as well where the two names of the class differ
in ASCII letters only (`locate?_method_iff`).  Elsewhere the two calls part
(`locate?_method_parts`).
-/

namespace VersionFloor

open Text

/-- what fits a method fits a construction of its class -/
theorem Symbol.Fits.construction {s : Symbol} {owner name : String}
    (h : s.Fits (some owner) (some name)) : s.Fits (some owner) none := by
  obtain ⟨-, o, ho, hsame⟩ := h
  exact ⟨o, ho, lower_eq_of_sameAscii hsame⟩

namespace Catalog

variable {symbols : List Symbol} {owner : String} {i : Nat} {s : Symbol}

/-- the first symbol of a class is the first of its own name in it -/
theorem locate?_of_fits (hi : (ofSymbols symbols).locate? (some owner) none = some i)
    (hs : symbols[i]? = some s) {name : String} (hfits : s.Fits (some owner) (some name)) :
    (ofSymbols symbols).locate? (some owner) (some name) = some i := by
  rw [locate?_eq_some_iff] at hi ⊢
  refine ⟨⟨s, hs, hfits⟩, ?_⟩
  rintro j ⟨t, ht, htfits⟩
  exact hi.2 ⟨t, ht, htfits.construction⟩

/-- **Where a construction leads, a method of that class leads too**, just when the class is named
alike up to the case of ASCII letters, as it is wherever both names are ASCII. -/
theorem locate?_method_iff (hi : (ofSymbols symbols).locate? (some owner) none = some i)
    (hs : symbols[i]? = some s) :
    ((ofSymbols symbols).locate? (some owner) (some s.name) = some i ↔
      ∃ o ∈ s.owner, sameAscii o owner = true) ∧
    ((∀ c ∈ owner.toList, isAscii c = true) →
      (∀ o ∈ s.owner, ∀ c ∈ o.toList, isAscii c = true) →
        (ofSymbols symbols).locate? (some owner) (some s.name) = some i) := by
  have hmethod : (∃ o ∈ s.owner, sameAscii o owner = true) →
      (ofSymbols symbols).locate? (some owner) (some s.name) = some i :=
    fun hsame => locate?_of_fits hi hs ⟨rfl, hsame⟩
  refine ⟨⟨fun h => ?_, hmethod⟩, fun howner hascii => hmethod ?_⟩
  · obtain ⟨⟨t, ht, -, hsame⟩, -⟩ := (locate?_eq_some_iff ..).mp h
    obtain rfl : s = t := Option.some.inj (hs.symm.trans ht)
    exact hsame
  · obtain ⟨⟨t, ht, o, ho, hlower⟩, -⟩ := (locate?_eq_some_iff ..).mp hi
    obtain rfl : s = t := Option.some.inj (hs.symm.trans ht)
    exact ⟨o, ho, sameAscii_of_lower_eq (hascii o ho) howner hlower⟩

/-- two classes of one name in other letters, and a function of the same name before them -/
def archives : List Symbol :=
  [Symbol.free "open" none, (Symbol.free "OPEN" none).ownedBy "ZipArchive",
    (Symbol.free "open" none).ownedBy "ZIPARCHIVE"]

theorem locate?_method_iff_archives :
    (ofSymbols archives).locate? (some "ziparchive") none = some 1 ∧
      (ofSymbols archives).locate? (some "ziparchive") (some "OPEN") = some 1 := by
  have hi : (ofSymbols archives).locate? (some "ziparchive") none = some 1 := by decide +kernel
  have howner : ∀ c ∈ "ziparchive".toList, isAscii c = true := List.all_eq_true.mp (by decide)
  have hascii : ∀ o ∈ some "ZipArchive", ∀ c ∈ o.toList, isAscii c = true := by
    rintro o ⟨rfl⟩
    exact List.all_eq_true.mp (by decide)
  exact ⟨hi, (locate?_method_iff hi rfl).2 howner hascii⟩

/-- The sign of the kelvin has the small letter `k`, and `Ä` the small letter `ä`, but neither is
the same as that up to the case of ASCII letters. -/
theorem locate?_method_parts :
    let symbols := [(Symbol.free "open" none).ownedBy "\u212a",
      (Symbol.free "open" none).ownedBy "Ärchiv"]
    Source.callsAsWritten "<?php new k(); k::open();".toList =
        [.construction "k", .method "k" "open"] ∧
      (ofSymbols symbols).locate? (some "k") none = some 0 ∧
      (ofSymbols symbols).locate? (some "k") (some "open") = none ∧
      (ofSymbols symbols).locate? (some "ärchiv") none = some 1 ∧
      (ofSymbols symbols).locate? (some "ärchiv") (some "open") = none := by
  decide +kernel

end Catalog

end VersionFloor
