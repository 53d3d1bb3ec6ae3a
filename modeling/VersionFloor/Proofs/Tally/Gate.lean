import VersionFloor.Proofs.Tally.Board
import VersionFloor.Proofs.Tally.Meaning

/-!
# Tallies: the target of a check

A report keeps one version only, the highest in an order that tells spellings apart; whether it
stays within a target is still a question of the numbers of all versions that went into it
(`passes_iff`).
-/

namespace VersionFloor

theorem Version.IsHighest.any_exceeds_eq_false_iff {vs : Set Version} {o : Option Version}
    (h : IsHighest vs o) (target : Version) :
    o.any (·.exceeds target) = false ↔ ∀ v ∈ vs, v.exceeds target = false := by
  cases o with
  | none =>
    have hempty : vs = ∅ := h
    rw [hempty]
    exact ⟨fun _ v hv => absurd hv (Set.notMem_empty v), fun _ => rfl⟩
  | some highest =>
    obtain ⟨hmem, hall⟩ := h
    rw [Option.any_some]
    refine ⟨fun hpass v hv => ?_, fun hpass => hpass highest hmem⟩
    exact not_exceeds_trans (not_exceeds_of_order (hall v hv)) hpass

/-- a report stays within a target when every version that is needed does -/
theorem Report.Describes.passes_some_iff {r : Report} {used : Set Symbol} (h : r.Describes used)
    (target : Version) :
    r.passes (some target) = true ↔
      ∀ v ∈ given (·.minVersion) used, v.exceeds target = false := by
  have hpasses : r.passes (some target) = !r.required.any (·.exceeds target) := rfl
  rw [hpasses, Bool.not_eq_true', h.required.any_exceeds_eq_false_iff]

namespace Tally.Move

variable {ι : Type} [DecidableEq ι]

/-- the versions that symbols in a tally need -/
def versions (moves : List (Move ι)) (i : ι) : Set Version :=
  given (·.minVersion) (recorded (events moves i))

/-- whether a tally stays within a target -/
def verdict (moves : List (Move ι)) (i : ι) (target : Version) : Bool :=
  (tallies moves i).report.passes (some target)

theorem verdict_iff (moves : List (Move ι)) (i : ι) (target : Version) :
    verdict moves i target = true ↔ ∀ v ∈ versions moves i, v.exceeds target = false := by
  rw [verdict, tallies_eq]
  exact (describes_ofEvents _).report.passes_some_iff target

theorem versions_subset {moves more : List (Move ι)} {i : ι} (hmore : reset i ∉ more) :
    versions moves i ⊆ versions (moves ++ more) i := by
  rintro v ⟨s, hs, hv⟩
  exact ⟨s, mem_events_append hmore hs, hv⟩

/-- **The target is kept just when no version exceeds it**, in whatever way the symbols came into
the tally.  So any version with the highest numbers decides, whichever spelling the report shows;
more symbols never make up for one that exceeds the target, and a target that is not lower is kept
too. -/
theorem passes_iff (moves : List (Move ι)) (i : ι) (target : Version) :
    ((tallies moves i).report.passes (some target) = true ↔
      ∀ v ∈ versions moves i, v.exceeds target = false) ∧
    (∀ v ∈ versions moves i, (∀ w ∈ versions moves i, w.exceeds v = false) →
      (tallies moves i).report.passes (some target) = !v.exceeds target) ∧
    (∀ more, reset i ∉ more → (tallies moves i).report.passes (some target) = false →
      (tallies (moves ++ more) i).report.passes (some target) = false) ∧
    (∀ higher, target.exceeds higher = false →
      (tallies moves i).report.passes (some target) = true →
      (tallies moves i).report.passes (some higher) = true) := by
  have hiff := verdict_iff moves i
  refine ⟨hiff target, fun v hv hhighest => ?_, fun more hmore hfails => ?_,
    fun higher hhigher hpasses => ?_⟩
  · show verdict moves i target = _
    rw [Bool.eq_iff_iff, hiff target, Bool.not_eq_true']
    exact ⟨fun hall => hall v hv, fun hpass w hw => Version.not_exceeds_trans (hhighest w hw) hpass⟩
  · refine Bool.eq_false_iff.mpr fun hafter => Bool.eq_false_iff.mp hfails ?_
    have hall := (verdict_iff (moves ++ more) i target).mp hafter
    exact (hiff target).mpr fun v hv => hall v (versions_subset hmore hv)
  · have hall := (hiff target).mp hpasses
    exact (hiff higher).mpr fun v hv => Version.not_exceeds_trans (hall v hv) hhigher

end Tally.Move

end VersionFloor
