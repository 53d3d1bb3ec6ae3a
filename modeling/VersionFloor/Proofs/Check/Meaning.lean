import VersionFloor.Proofs.Check.Scan
import VersionFloor.Proofs.Tally.Meaning

/-!
# Checks: what one reports

The report describes the symbols that the calls of all readable source files lead to (`used`),
without those that are ignored, and counts these files (`runWith_describes`).
-/

namespace VersionFloor

open Text

/-! ### counting files -/

namespace Tally

def Event.isScanned : Event → Bool
  | .scanned => true
  | _ => false

theorem scanned_ofEvents (es : List Event) :
    (ofEvents es).scanned = es.countP Event.isScanned := by
  induction es with
  | nil => rfl
  | cons e es ih =>
    have hone : (ofEvent e).scanned = if e.isScanned then 1 else 0 := by cases e <;> rfl
    rw [ofEvents_cons, List.countP_cons, ← ih, ← hone, Nat.add_comm]
    rfl

end Tally

namespace Check

open Tally

variable {c : Check} {disk : Disk}

def isReadable (disk : Disk) (path : Path) : Bool := (disk.read path).isOk

theorem countP_isScanned_map {α : Type} {f : α → Event} (hf : ∀ a, (f a).isScanned = false)
    (l : List α) : (l.map f).countP Event.isScanned = 0 := by
  rw [List.countP_map]
  exact List.countP_eq_zero.mpr fun a _ => Bool.not_eq_true _ ▸ hf a

theorem countP_fileEvents (c : Check) (disk : Disk) (path : Path) :
    (c.fileEvents disk path).countP Event.isScanned = if isReadable disk path then 1 else 0 := by
  unfold fileEvents isReadable
  cases disk.read path with
  | error e => rfl
  | ok bytes =>
    show (Event.scanned :: _).countP _ = 1
    rw [List.countP_cons, countP_isScanned_map fun _ => rfl]
    rfl

theorem countP_flatMap_fileEvents (c : Check) (disk : Disk) (files : List Path) :
    (files.flatMap (c.fileEvents disk)).countP Event.isScanned =
      files.countP (isReadable disk) := by
  induction files with
  | nil => rfl
  | cons path files ih =>
    rw [List.flatMap_cons, List.countP_append, ih, countP_fileEvents, List.countP_cons,
      Nat.add_comm]

theorem countP_events (c : Check) (disk : Disk) (d : Discovery) :
    (c.events disk d).countP Event.isScanned = (d.files disk).countP (isReadable disk) := by
  rw [events, List.countP_append, countP_isScanned_map (fun _ => rfl), Nat.add_zero,
    countP_flatMap_fileEvents]

/-! ### the symbols that are used -/

/-- the symbols that calls in the source files lead to, without those that are ignored -/
def used (c : Check) (disk : Disk) (d : Discovery) : Set Symbol :=
  {s | (∃ path ∈ d.files disk, ∃ bytes, disk.read path = .ok bytes ∧
      ∃ call ∈ Source.calls (decodeLossy bytes),
        c.catalog.resolve? call.owner? call.name? = some s) ∧
    ∀ i ∈ c.ignored, lower i ≠ lower s.qualifiedName}

theorem ignores_eq_false_iff (c : Check) (s : Symbol) :
    (!c.ignores s) = true ↔ ∀ i ∈ c.ignored, lower i ≠ lower s.qualifiedName := by
  rw [Bool.not_eq_true', ignores, List.any_eq_false]
  exact forall₂_congr fun i _ => by rw [beq_iff_eq]

theorem mem_matched (c : Check) (content : List Char) (s : Symbol) :
    s ∈ c.matched content ↔
      (∃ call ∈ Source.calls content, c.catalog.resolve? call.owner? call.name? = some s) ∧
        ∀ i ∈ c.ignored, lower i ≠ lower s.qualifiedName := by
  rw [matched, List.mem_filter, List.mem_filterMap, ignores_eq_false_iff]

theorem used_mem_fileEvents (c : Check) (disk : Disk) (path : Path) (s : Symbol) :
    .used s ∈ c.fileEvents disk path ↔
      ∃ bytes, disk.read path = .ok bytes ∧ s ∈ c.matched (decodeLossy bytes) := by
  unfold fileEvents
  cases disk.read path with
  | error e => simp
  | ok bytes => simp

theorem recorded_events (c : Check) (disk : Disk) (d : Discovery) :
    recorded (c.events disk d) = c.used disk d := by
  ext s
  have hskips : Event.used s ∉ (d.unlisted disk).map Event.skipped := by simp
  show Event.used s ∈ c.events disk d ↔ s ∈ c.used disk d
  rw [events, List.mem_append, or_iff_left hskips, List.mem_flatMap]
  constructor
  · rintro ⟨path, hpath, hs⟩
    obtain ⟨bytes, hread, hm⟩ := (used_mem_fileEvents ..).mp hs
    obtain ⟨hcall, hignored⟩ := (mem_matched ..).mp hm
    exact ⟨⟨path, hpath, bytes, hread, hcall⟩, hignored⟩
  · rintro ⟨⟨path, hpath, bytes, hread, hcall⟩, hignored⟩
    have hm := (mem_matched ..).mpr ⟨hcall, hignored⟩
    exact ⟨path, hpath, (used_mem_fileEvents ..).mpr ⟨bytes, hread, hm⟩⟩

/-! ### the report -/

/-- **A report describes what the source files use**: every symbol that a call in one of them leads
to, other than the ignored ones, and nothing else.  Functions without a version are listed once for
each lower case, like all functions.  There is a report unless the root or the patterns are wrong or
the check is to stop. -/
theorem runWith_describes (c : Check) (disk : Disk) (root : Path)
    (pool : List Path → Except CheckError Tally) (hpool : c.IsPool disk pool) :
    (∀ r, c.runWith pool disk root = .ok r →
      ∃ d, discover disk root c.selection = .ok d ∧ r.Describes (c.used disk d) ∧
        r.scanned = (d.files disk).countP (isReadable disk)) ∧
    (c.cancelled = false → c.expired = false →
      ∀ d, discover disk root c.selection = .ok d → ∃ r, c.runWith pool disk root = .ok r) := by
  rw [runWith_eq hpool]
  constructor
  · intro r hr
    cases hd : discover disk root c.selection with
    | error e =>
      rw [hd] at hr
      cases hr
    | ok d =>
      rw [hd] at hr
      have he : r = (ofEvents (c.events disk d)).report := outcome_eq_ok hr
      refine ⟨d, rfl, ?_, ?_⟩
      · rw [he, ← recorded_events]
        exact (describes_ofEvents _).report
      · rw [he, ← countP_events c disk d, ← scanned_ofEvents]
        rfl
  · intro hcancelled hexpired d hd
    have hgo : c.checkpoint = .ok () := by rw [checkpoint, hcancelled, hexpired]; rfl
    rw [hd]
    show ∃ r, c.outcome disk d = .ok r
    unfold outcome scanOutcome
    rw [hgo]
    exact ⟨_, rfl⟩

/-! ### two functions, one lower case -/

/-- two functions without a version whose qualified names differ in case only -/
def alikeNames : Check :=
  plain (.ofSymbols [(Symbol.free "b::c" none).ownedBy "A", (Symbol.free "c" none).ownedBy "a::b"])

def alikeUses : Disk :=
  ((Disk.bare ["work"]).put ⟨"a.php"⟩ (.file (encode "<?php new A();"))).put ⟨"b.php"⟩
    (.file (encode "<?php new a::b();"))

theorem runWith_describes_alike :
    ∃ r d, alikeNames.IsPool alikeUses (alikeNames.halvesPool alikeUses) ∧
      alikeNames.runWith (alikeNames.halvesPool alikeUses) alikeUses ⟨"."⟩ = .ok r ∧
      discover alikeUses ⟨"."⟩ alikeNames.selection = .ok d ∧
      r.Describes (alikeNames.used alikeUses d) ∧ r.scanned = 2 := by
  have hpool := isPool_halvesPool alikeNames alikeUses
  obtain ⟨hdescribes, -⟩ := runWith_describes alikeNames alikeUses ⟨"."⟩ _ hpool
  have hany : (alikeNames.runWith (alikeNames.halvesPool alikeUses) alikeUses ⟨"."⟩).toOption.any
      (fun r => r.scanned == 2) = true := by decide +kernel
  obtain ⟨r, hr, hscanned⟩ := exists_ok_of_any hany
  obtain ⟨d, hd, hused, -⟩ := hdescribes r hr
  exact ⟨r, d, hpool, hr, hd, hused, beq_iff_eq.mp hscanned⟩

/-- of the two names, the report lists the smaller one only -/
theorem unversioned_lists_smaller :
    ∃ r d, alikeNames.run alikeUses ⟨"."⟩ = .ok r ∧
      discover alikeUses ⟨"."⟩ alikeNames.selection = .ok d ∧
      ¬ ∀ n, n ∈ r.unversioned ↔
        ∃ s ∈ alikeNames.used alikeUses d, s.minVersion = none ∧ s.qualifiedName = n := by
  let s : Symbol := (Symbol.free "c" none).ownedBy "a::b"
  have hrun : (alikeNames.run alikeUses ⟨"."⟩).toOption.any
      (fun r => r.unversioned == ["A::b::c"]) = true := by decide +kernel
  have hevent : (discover alikeUses ⟨"."⟩ alikeNames.selection).toOption.any
      (fun d => Event.used s ∈ alikeNames.events alikeUses d) = true := by decide +kernel
  obtain ⟨r, hr, hlist⟩ := exists_ok_of_any hrun
  obtain ⟨d, hd, hmem⟩ := exists_ok_of_any hevent
  refine ⟨r, d, hr, hd, fun hall => ?_⟩
  have hm : Event.used s ∈ alikeNames.events alikeUses d := of_decide_eq_true hmem
  have hs : s ∈ alikeNames.used alikeUses d := by
    rw [← recorded_events]
    exact hm
  have hlisted : "a::b::c" ∈ r.unversioned := (hall _).mpr ⟨s, hs, rfl, by decide⟩
  rw [beq_iff_eq.mp hlist] at hlisted
  revert hlisted
  decide

end Check

end VersionFloor
