import VersionFloor.Catalog.Symbol
import VersionFloor.Keyed
import VersionFloor.Report.Basic
import VersionFloor.Text.Case

/-!
# Tallies: a check while it runs

Every step takes a union or a maximum, so tallies of parts add up to the tally of the whole.
-/

namespace VersionFloor

open Text

/-- names under their lower case, each in its smallest spelling -/
abbrev Spellings := Keyed String

def smaller (a b : String) : String := if b < a then b else a

def Spellings.add (t : Spellings) (s : String) : Spellings := Keyed.add smaller t (lower s) s

def Spellings.join (s t : Spellings) : Spellings := s.union smaller t

def ExtensionUse.join (a b : ExtensionUse) : ExtensionUse :=
  ⟨smaller a.name b.name, Version.larger? a.required b.required⟩

structure Tally where
  required : Option Version
  functions : Spellings
  classes : Spellings
  extensions : Keyed ExtensionUse
  /-- whether a symbol without a version was among those recorded -/
  isUncertain : Bool
  unversioned : Spellings
  scanned : Nat
  skipped : List Skip

namespace Tally

def empty : Tally := ⟨none, ∅, ∅, ∅, false, ∅, 0, []⟩

instance : EmptyCollection Tally := ⟨empty⟩

def addExtension (t : Keyed ExtensionUse) (e : Extension) : Keyed ExtensionUse :=
  t.add ExtensionUse.join (lower e.name) ⟨e.name, e.minVersion⟩

/-- a symbol that is used -/
def record (t : Tally) (s : Symbol) : Tally :=
  { t with
    required := Version.larger? t.required s.minVersion
    functions := t.functions.add s.qualifiedName
    classes := s.owner.elim t.classes t.classes.add
    extensions := s.extension.elim t.extensions (addExtension t.extensions)
    isUncertain := t.isUncertain || s.minVersion.isNone
    unversioned :=
      if s.minVersion.isNone then t.unversioned.add s.qualifiedName else t.unversioned }

def fileScanned (t : Tally) : Tally := { t with scanned := t.scanned + 1 }

def fileSkipped (t : Tally) (s : Skip) : Tally := { t with skipped := t.skipped ++ [s] }

def merge (s t : Tally) : Tally where
  required := Version.larger? s.required t.required
  functions := s.functions.join t.functions
  classes := s.classes.join t.classes
  extensions := s.extensions.union ExtensionUse.join t.extensions
  isUncertain := s.isUncertain || t.isUncertain
  unversioned := s.unversioned.join t.unversioned
  scanned := s.scanned + t.scanned
  skipped := s.skipped ++ t.skipped

def report (t : Tally) : Report where
  required := t.required
  functions := t.functions.values
  classes := t.classes.values
  extensions := t.extensions.values
  isUncertain := t.isUncertain
  unversioned := t.unversioned.values
  scanned := t.scanned
  skipped := Skip.sorted t.skipped

end Tally

end VersionFloor
