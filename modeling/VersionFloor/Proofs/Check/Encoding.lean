import VersionFloor.Check.Run
import VersionFloor.Proofs.Source.Outline

/-!
# Checks: a source file in two encodings

Files are read as UTF-8 and what is not UTF-8 becomes replacement characters, so a text in Latin-1
is read as another text with the same outline.  Where both are plainly spaced the file counts the
same (`scanFile_encoding`); blanks and letters beyond ASCII next to a keyword or around parentheses
make the difference (`calls_latin`).
-/

namespace VersionFloor

open Text Source

/-- the two files of a text have one outline -/
theorem outline_decodeLossy_latin {s : List Char} (h : ∀ ch ∈ s, ch.toNat < 0x100) :
    outline (decodeLossy (latin s)) = outline s := by
  rw [outline_decodeLossy, decodeBytewise_latin h]

namespace Check

/-- **A text in Latin-1 counts as the same text in UTF-8**, for every catalog and every list of
ignored names, when all calls of both readings are plainly spaced. -/
theorem scanFile_encoding (c : Check) (t : Tally) {disk disk' : Disk} {path path' : Path}
    {s : List Char} (hs : ∀ ch ∈ s, ch.toNat < 0x100) (hspaced : PlainlySpaced s)
    (hlatin : PlainlySpaced (decodeLossy (latin s))) (hread : disk.read path = .ok (latin s))
    (hread' : disk'.read path' = .ok (encode (String.ofList s))) :
    calls (decodeLossy (latin s)) = calls (decodeLossy (encode (String.ofList s))) ∧
      c.scanFile disk t path = c.scanFile disk' t path' := by
  have hcalls : calls (decodeLossy (latin s)) = calls (decodeLossy (encode (String.ofList s))) := by
    rw [encode_ofList, decodeLossy_encodeChars]
    exact calls_eq_of_outline_eq (outline_decodeLossy_latin hs) hlatin hspaced
  have hmatched : c.matched (decodeLossy (latin s)) =
      c.matched (decodeLossy (encode (String.ofList s))) := by
    rw [matched, matched, hcalls]
  refine ⟨hcalls, ?_⟩
  rw [scanFile, scanFile, hread, hread']
  show (c.matched _).foldl Tally.record _ = (c.matched _).foldl Tally.record _
  rw [hmatched]

/-- letters in comments, names and strings, two of them like one in UTF-8, and a blank in front of
the opening tag -/
def accented : List Char :=
  "\u00A0<?php /* \u00C3\u00A9 */ $gr\u00F6\u00DFe = new Zip (\"\u00E9\") ; ver\u00F6ffne();".toList

def accentedDisk : Disk :=
  ((Disk.bare ["work"]).put ⟨"latin.php"⟩ (.file (latin accented))).put ⟨"utf8.php"⟩
    (.file (encode (String.ofList accented)))

theorem scanFile_encoding_accented :
    let c := plain (.ofSymbols [(Symbol.free "open" none).ownedBy "Zip"])
    decodeLossy (latin accented) ≠ accented ∧
      Call.construction "Zip" ∈ calls (decodeLossy (latin accented)) ∧
      calls (decodeLossy (latin accented)) =
        calls (decodeLossy (encode (String.ofList accented))) ∧
      c.scanFile accentedDisk ∅ ⟨"latin.php"⟩ = c.scanFile accentedDisk ∅ ⟨"utf8.php"⟩ := by
  intro c
  have hall : accented.all (·.toNat < 0x100) = true := by decide +kernel
  have hs : ∀ ch ∈ accented, ch.toNat < 0x100 := by simpa using hall
  have hspaced : PlainlySpaced accented :=
    plainlySpaced_of_regions (by decide +kernel) (by decide +kernel)
  have hlatin : PlainlySpaced (decodeLossy (latin accented)) :=
    plainlySpaced_of_regions (by decide +kernel) (by decide +kernel)
  have hread : accentedDisk.read ⟨"latin.php"⟩ = .ok (latin accented) := by rfl
  have hread' : accentedDisk.read ⟨"utf8.php"⟩ = .ok (encode (String.ofList accented)) := by rfl
  have hcall : Call.construction "Zip" ∈ calls (decodeLossy (latin accented)) := by
    rw [mem_calls]
    decide +kernel
  exact ⟨by decide +kernel, hcall, scanFile_encoding c ∅ hs hspaced hlatin hread hread'⟩

/-- a blank behind the keyword -/
theorem calls_latin :
    let s := "<?php new\u00A0A();"
    s.toList.all (·.toNat < 0x100) = true ∧
      calls (decodeLossy (latin s.toList)) = [.free "A"] ∧
      calls (decodeLossy (encode s)) = [.construction "A"] := by
  decide +kernel

/-- a letter in front of the keyword -/
example :
    let s := "<?php \u00E9new A();"
    calls (decodeLossy (latin s.toList)) = [.construction "A"] ∧
      calls (decodeLossy (encode s)) = [.free "A"] := by
  decide +kernel

end Check

end VersionFloor
