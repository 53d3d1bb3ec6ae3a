import VersionFloor.Proofs.Report.Same
import VersionFloor.Proofs.Tally.Board
import VersionFloor.Proofs.Tally.Meaning

/-!
# Tallies: well-formed reports

A report that describes some symbols has its lists in order and its warning in step with them
(`Report.Describes.unversioned_ne_nil_iff`), and a tally holds each skip as often as it happened
(`skipped_ofEvents`); so the report of any tally that moves lead to is well-formed
(`wellFormed_report`).
-/

namespace VersionFloor

open Text

/-! ### lists of names -/

/-- in the order of their lower case, and no two with the same one -/
def IsAscending (names : List String) : Prop := names.Pairwise fun a b => lower a < lower b

theorem Lists.ne_nil_iff {entries : List String} {names : Set String} (h : Lists entries names) :
    entries ≠ [] ↔ names.Nonempty := by
  constructor
  · intro hne
    obtain ⟨n, entries, rfl⟩ := List.exists_cons_of_ne_nil hne
    exact ⟨n, ((h.mem_iff n).mp List.mem_cons_self).1.1⟩
  · rintro ⟨m, hm⟩
    obtain ⟨n, hn, -⟩ := h.complete m hm
    exact List.ne_nil_of_mem hn

theorem Lists.mem_names {entries : List String} {names : Set String} (h : Lists entries names)
    {n : String} (hn : n ∈ entries) : n ∈ names := ((h.mem_iff n).mp hn).1.1

/-! ### skips -/

namespace Skip

/-- by path, and by reason where the paths have the same steps -/
def Precedes (a b : Skip) : Prop :=
  a.path.order b.path = .lt ∨ a.path.order b.path = .eq ∧ a.reason ≤ b.reason

theorem precedes_of_order {a b : Skip} (h : a.order b ≠ .gt) : a.Precedes b := by
  rw [Skip.order] at h
  cases hpath : a.path.order b.path with
  | lt => exact .inl hpath
  | eq =>
    rw [hpath, Ordering.eq_then] at h
    exact .inr ⟨hpath, not_lt.mp fun hlt => h (compare_gt_iff_gt.mpr hlt)⟩
  | gt =>
    rw [hpath] at h
    exact absurd rfl h

theorem pairwise_sorted (ss : List Skip) : (sorted ss).Pairwise Precedes :=
  (pairwise_mergeSort_bne_gt ss).imp precedes_of_order

end Skip

/-! ### reports -/

namespace Report

/-- A report in which everything is in order, after these skips. -/
structure WellFormed (r : Report) (skips : List Skip) : Prop where
  functions : IsAscending r.functions
  classes : IsAscending r.classes
  extensions : IsAscending (r.extensions.map (·.name))
  unversioned : IsAscending r.unversioned
  ascending : r.skipped.Pairwise Skip.Precedes
  /-- each skip stands there as often as it happened -/
  skipped : r.skipped.Perm skips
  /-- up to case, functions without a version are among those that are used -/
  used : ∀ n ∈ r.unversioned, ∃ m ∈ r.functions, lower m = lower n
  isUncertain : r.isUncertain = true ↔ r.unversioned ≠ []
  /-- a warning that is given names all functions without a version, in their order -/
  warning : r.warning? =
    if r.isUncertain then
      some (uncertainty ++ ("\nThis is due to the use of the following functions: " ++
        joinWith ", " r.unversioned ++ "."))
    else none

theorem warning?_eq {r : Report} (h : r.isUncertain = true → r.unversioned ≠ []) :
    r.warning? =
      if r.isUncertain then
        some (uncertainty ++ ("\nThis is due to the use of the following functions: " ++
          joinWith ", " r.unversioned ++ "."))
      else none := by
  rw [warning?]
  cases huncertain : r.isUncertain with
  | false => rfl
  | true =>
    have hne : ¬ r.unversioned.isEmpty = true := fun hempty =>
      h huncertain (List.isEmpty_iff.mp hempty)
    rw [if_pos rfl, if_pos rfl, if_neg hne]

namespace Describes

variable {r : Report} {used : Set Symbol} (h : r.Describes used)

include h

theorem unversioned_ne_nil_iff : r.unversioned ≠ [] ↔ ∃ s ∈ used, s.minVersion = none := by
  rw [h.unversioned.ne_nil_iff, Set.image_nonempty]
  rfl

theorem exists_function_of_unversioned {n : String} (hn : n ∈ r.unversioned) :
    ∃ m ∈ r.functions, lower m = lower n := by
  obtain ⟨s, hs, rfl⟩ := h.unversioned.mem_names hn
  exact h.functions.complete _ ⟨s, hs.1, rfl⟩

/-- what a report says of symbols is in order; the skips are another matter -/
theorem wellFormed {skips : List Skip} (hsorted : r.skipped.Pairwise Skip.Precedes)
    (hperm : r.skipped.Perm skips) : r.WellFormed skips := by
  have hiff : r.isUncertain = true ↔ r.unversioned ≠ [] :=
    h.isUncertain.trans h.unversioned_ne_nil_iff.symm
  exact {
    functions := h.functions.ascending
    classes := h.classes.ascending
    extensions := h.extensions.ascending
    unversioned := h.unversioned.ascending
    ascending := hsorted
    skipped := hperm
    used := fun n hn => h.exists_function_of_unversioned hn
    isUncertain := hiff
    warning := warning?_eq hiff.mp }

end Describes

end Report

/-! ### tallies -/

namespace Tally

/-- the skip that an event is -/
def Event.skip? : Event → Option Skip
  | .skipped s => some s
  | _ => none

/-- the skips among some events, each as often as it happened -/
def skips (es : List Event) : List Skip := es.filterMap Event.skip?

theorem skipped_ofEvents (es : List Event) : (ofEvents es).skipped = skips es := by
  induction es with
  | nil => rfl
  | cons e es ih =>
    have hcons : (ofEvents (e :: es)).skipped = (ofEvent e).skipped ++ (ofEvents es).skipped := by
      rw [ofEvents_cons]
      rfl
    rw [hcons, ih]
    cases e <;> rfl

theorem wellFormed_ofEvents (es : List Event) : (ofEvents es).report.WellFormed (skips es) := by
  refine (describes_ofEvents es).report.wellFormed (Skip.pairwise_sorted _) ?_
  rw [← skipped_ofEvents]
  exact List.mergeSort_perm _ _

/-- **Every report is well-formed**: after any moves between any number of tallies its lists are in
order, it lists the skips of the events that went into its tally, and it warns of the functions
without a version just when there are any. -/
theorem Move.wellFormed_report {ι : Type} [DecidableEq ι] (moves : List (Move ι)) (i : ι) :
    (tallies moves i).report.WellFormed (skips (events moves i)) := by
  rw [tallies_eq]
  exact wellFormed_ofEvents _

end Tally

end VersionFloor
