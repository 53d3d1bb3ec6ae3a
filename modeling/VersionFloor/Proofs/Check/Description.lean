import VersionFloor.Catalog.Load
import VersionFloor.Proofs.Check.Scan

/-!
# Checks: descriptions do not count

A check looks at names, owners, versions and extensions only, so it reports the same on a catalog
that keeps the descriptions and on one that drops them (`run_withoutDescriptions`).
-/

namespace VersionFloor

open Text

namespace Catalog

/-- the catalog without the descriptions of its symbols -/
def withoutDescriptions (c : Catalog) : Catalog :=
  { c with symbols := c.symbols.map Symbol.withoutDescription }

/-- a key that does not depend on the description stands at the same positions -/
theorem index_map {key? : Symbol → Option String}
    (hkey : ∀ s : Symbol, key? s.withoutDescription = key? s) (symbols : List Symbol) :
    index key? (symbols.map Symbol.withoutDescription) = index key? symbols := by
  rw [index, index, List.zipIdx_map, List.foldl_map]
  simp only [Prod.map, hkey, id]

theorem ofSymbols_map (symbols : List Symbol) :
    ofSymbols (symbols.map Symbol.withoutDescription) =
      (ofSymbols symbols).withoutDescriptions := by
  rw [ofSymbols, index_map fun _ => rfl, index_map fun _ => rfl]
  rfl

variable (c : Catalog)

theorem hasOwner_withoutDescriptions (owner : String) (i : Nat) :
    c.withoutDescriptions.hasOwner owner i = c.hasOwner owner i := by
  rw [hasOwner, hasOwner, withoutDescriptions, List.getElem?_map]
  cases c.symbols[i]? <;> rfl

theorem isFree_withoutDescriptions (i : Nat) : c.withoutDescriptions.isFree i = c.isFree i := by
  rw [isFree, isFree, withoutDescriptions, List.getElem?_map]
  cases c.symbols[i]? <;> rfl

theorem locate?_withoutDescriptions (owner name : Option String) :
    c.withoutDescriptions.locate? owner name = c.locate? owner name := by
  have howner (o : String) : c.withoutDescriptions.hasOwner o = c.hasOwner o :=
    funext (c.hasOwner_withoutDescriptions o)
  have hfree : c.withoutDescriptions.isFree = c.isFree := funext c.isFree_withoutDescriptions
  cases owner with
  | some o =>
    cases name with
    | some n => rw [locate?, locate?, howner]; rfl
    | none => rfl
  | none =>
    cases name with
    | some n => rw [locate?, locate?, hfree]; rfl
    | none => rfl

theorem resolve?_withoutDescriptions (owner name : Option String) :
    c.withoutDescriptions.resolve? owner name =
      (c.resolve? owner name).map Symbol.withoutDescription := by
  rw [resolve?, resolve?, locate?_withoutDescriptions, Option.map_bind]
  congr 1
  funext i
  exact List.getElem?_map ..

/-- whether they are kept or dropped, the descriptions of a loaded catalog do not count -/
theorem load_withoutDescriptions (disk : Disk) (path : Path) (kept kept' : Bool) :
    (load disk path kept).map withoutDescriptions =
      (load disk path kept').map withoutDescriptions := by
  have hdrop (s : Symbol) : s.withoutDescription.withoutDescription = s.withoutDescription := rfl
  have hsymbols (symbols : List Symbol) (kept : Bool) :
      (ofSymbols (if kept then symbols
        else symbols.map Symbol.withoutDescription)).withoutDescriptions =
        (ofSymbols symbols).withoutDescriptions := by
    rw [← ofSymbols_map, ← ofSymbols_map]
    cases kept with
    | true => rfl
    | false => simp [Function.comp_def, hdrop]
  unfold load
  cases Format.ofPath? path with
  | none => rfl
  | some f =>
    cases disk.readText path with
    | error e => rfl
    | ok s =>
      dsimp only
      cases f.parse s with
      | error fault => rfl
      | ok symbols =>
        show Except.ok (ofSymbols _).withoutDescriptions =
          Except.ok (ofSymbols _).withoutDescriptions
        rw [hsymbols, hsymbols]

end Catalog

namespace Check

variable (c : Check) (disk : Disk)

def withoutDescriptions : Check := { c with catalog := c.catalog.withoutDescriptions }

theorem matched_withoutDescriptions (content : List Char) :
    c.withoutDescriptions.matched content =
      (c.matched content).map Symbol.withoutDescription := by
  have hresolve (call : Source.Call) :
      c.withoutDescriptions.catalog.resolve? call.owner? call.name? =
        (c.catalog.resolve? call.owner? call.name?).map Symbol.withoutDescription :=
    c.catalog.resolve?_withoutDescriptions call.owner? call.name?
  rw [matched, matched, List.filterMap_congr fun call _ => hresolve call, ← List.map_filterMap,
    List.filter_map]
  rfl

/-- **A file counts in the same way** whether the catalog has descriptions or not. -/
theorem scanFile_withoutDescriptions (t : Tally) (path : Path) :
    c.withoutDescriptions.scanFile disk t path = c.scanFile disk t path := by
  unfold scanFile
  cases disk.read path with
  | error e => rfl
  | ok bytes =>
    show (c.withoutDescriptions.matched _).foldl Tally.record _ = _
    rw [matched_withoutDescriptions, List.foldl_map]
    rfl

variable {c disk}

/-- what a check reports depends on what it makes of each file, and not on how files are shared -/
theorem run_congr {c' : Check} (hstep : c'.step disk = c.step disk)
    (hselection : c'.selection = c.selection) (root : Path) :
    c'.run disk root = c.run disk root := by
  have houtcome (d : Discovery) : c'.outcome disk d = c.outcome disk d := by
    rw [outcome, outcome, ← foldlM_step_eq, ← foldlM_step_eq, hstep]
  rw [run_eq, run_eq, hselection]
  congr 1
  funext d
  exact houtcome d

theorem run_withoutDescriptions (root : Path) :
    c.withoutDescriptions.run disk root = c.run disk root := by
  have hstep : c.withoutDescriptions.step disk = c.step disk := by
    funext t path
    rw [step, step, scanFile_withoutDescriptions]
    rfl
  have hselection : c.withoutDescriptions.selection = c.selection := rfl
  exact run_congr hstep hselection root

theorem run_parallel (parallel : Bool) (root : Path) :
    ({ c with parallel } : Check).run disk root = c.run disk root := by
  have hstep : ({ c with parallel } : Check).step disk = c.step disk := rfl
  have hselection : ({ c with parallel } : Check).selection = c.selection := rfl
  exact run_congr hstep hselection root

end Check

end VersionFloor
