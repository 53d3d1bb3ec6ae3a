import VersionFloor.Report.Basic

/-!
# Reports: when two say the same

Paths count by their steps, so skips do by their `key`; all else counts as it is written.  Sorted
skips with the same keys say the same whatever order they came in (`map_key_sorted`).
-/

namespace VersionFloor

/-! ### sorting by an order -/

section

variable {α : Type} {cmp : α → α → Ordering} [Std.TransCmp cmp]

theorem bne_gt_trans (a b c : α) (hab : (cmp a b != .gt) = true) (hbc : (cmp b c != .gt) = true) :
    (cmp a c != .gt) = true := by
  have hab' := Ordering.isLE_iff_ne_gt.mpr (bne_iff_ne.mp hab)
  have hbc' := Ordering.isLE_iff_ne_gt.mpr (bne_iff_ne.mp hbc)
  exact bne_iff_ne.mpr (Ordering.isLE_iff_ne_gt.mp (Std.TransCmp.isLE_trans hab' hbc'))

theorem bne_gt_total (a b : α) : ((cmp a b != .gt) || (cmp b a != .gt)) = true := by
  have hswap : cmp b a = (cmp a b).swap := Std.OrientedCmp.eq_swap
  rw [hswap]
  cases cmp a b <;> rfl

theorem pairwise_mergeSort_bne_gt (l : List α) :
    (l.mergeSort fun a b => cmp a b != .gt).Pairwise fun a b => cmp a b ≠ .gt :=
  (List.pairwise_mergeSort bne_gt_trans bne_gt_total l).imp bne_iff_ne.mp

end

/-! ### the order of paths and of skips -/

namespace Path

/-- what a step is called; the three steps without a name share the empty one -/
def Step.label : Step → String
  | .name s => s
  | _ => ""

theorem Step.order_eq_compareLex :
    Step.order = compareLex (compareOn Step.rank) (compareOn Step.label) := by
  funext a b
  cases a <;> cases b <;> rfl

instance : Std.TransCmp Step.order := by
  rw [Step.order_eq_compareLex]
  infer_instance

instance : Std.LawfulEqCmp Step.order where
  compare_self := Std.ReflCmp.compare_self
  eq_of_compare {a b} h := by
    rw [Step.order_eq_compareLex] at h
    obtain ⟨h1, h2⟩ := Ordering.then_eq_eq.mp h
    have hr : a.rank = b.rank := Std.LawfulEqCmp.eq_of_compare h1
    have hl : a.label = b.label := Std.LawfulEqCmp.eq_of_compare h2
    cases a <;> cases b <;> first
      | rfl
      | exact congrArg Step.name hl
      | cases hr

theorem compareSteps_eq_compareLex : compareSteps = List.compareLex Step.order := by
  funext a b
  induction a generalizing b with
  | nil => cases b <;> rfl
  | cons x a ih =>
    cases b with
    | nil => rfl
    | cons y b => rw [compareSteps, ih, List.compareLex_cons_cons]

end Path

namespace Skip

/-- what counts of a skip -/
def key (s : Skip) : List Path.Step × String := (s.path.steps, s.reason)

/-- by steps, then by reason -/
def orderKeys : List Path.Step × String → List Path.Step × String → Ordering :=
  compareLex (fun a b => List.compareLex Path.Step.order a.1 b.1) (compareOn Prod.snd)

instance : Std.TransCmp fun a b : List Path.Step × String =>
    List.compareLex Path.Step.order a.1 b.1 where
  eq_swap := Std.OrientedCmp.eq_swap
  isLE_trans := Std.TransCmp.isLE_trans

instance : Std.TransCmp orderKeys := by
  unfold orderKeys
  infer_instance

theorem orderKeys_antisymm {a b : List Path.Step × String} (hab : orderKeys a b ≠ .gt)
    (hba : orderKeys b a ≠ .gt) : a = b := by
  have heq : orderKeys a b = .eq :=
    Std.OrientedCmp.isLE_antisymm (Ordering.isLE_iff_ne_gt.mpr hab)
      (Ordering.isLE_iff_ne_gt.mpr hba)
  obtain ⟨h1, h2⟩ := Ordering.then_eq_eq.mp heq
  exact Prod.ext (Std.LawfulEqCmp.eq_of_compare h1) (Std.LawfulEqCmp.eq_of_compare h2)

theorem order_eq_orderKeys (a b : Skip) : a.order b = orderKeys a.key b.key := by
  show (Path.compareSteps a.path.steps b.path.steps).then _ = _
  rw [Path.compareSteps_eq_compareLex]
  rfl

instance : Std.TransCmp order where
  eq_swap {a b} := by
    rw [order_eq_orderKeys, order_eq_orderKeys]
    exact Std.OrientedCmp.eq_swap
  isLE_trans {a b c} := by
    rw [order_eq_orderKeys, order_eq_orderKeys, order_eq_orderKeys]
    exact Std.TransCmp.isLE_trans

theorem map_key_sorted_eq (ss : List Skip) :
    (sorted ss).map key = (ss.map key).mergeSort fun a b => orderKeys a b != .gt :=
  List.map_mergeSort fun a _ b _ => by rw [order_eq_orderKeys]

/-- the keys of sorted skips do not depend on the order they came in -/
theorem map_key_sorted {ss ts : List Skip} (h : ss.Perm ts) :
    (sorted ss).map key = (sorted ts).map key := by
  rw [map_key_sorted_eq, map_key_sorted_eq]
  have hperm : ((ss.map key).mergeSort fun a b => orderKeys a b != .gt).Perm
      ((ts.map key).mergeSort fun a b => orderKeys a b != .gt) :=
    (List.mergeSort_perm _ _).trans ((h.map key).trans (List.mergeSort_perm _ _).symm)
  exact hperm.eq_of_pairwise (fun a b _ _ hab hba => orderKeys_antisymm hab hba)
    (pairwise_mergeSort_bne_gt _) (pairwise_mergeSort_bne_gt _)

end Skip

/-- two reports that differ at most in how the paths of their skips are spelled -/
structure Report.Same (r s : Report) : Prop where
  required : r.required = s.required
  functions : r.functions = s.functions
  classes : r.classes = s.classes
  extensions : r.extensions = s.extensions
  isUncertain : r.isUncertain = s.isUncertain
  unversioned : r.unversioned = s.unversioned
  scanned : r.scanned = s.scanned
  skipped : r.skipped.map Skip.key = s.skipped.map Skip.key

end VersionFloor
