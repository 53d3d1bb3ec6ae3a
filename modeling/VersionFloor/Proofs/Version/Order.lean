import Mathlib.Data.List.TakeDrop
import VersionFloor.Version

/-!
# Versions: the order

Segments compare like the lists they make when all are filled up with zeros to one length
(`compareSegments_eq_padded`), so the order by number is total and transitive, and the spelling
makes it one where only equal versions compare equal.  `larger` is the maximum in it.
-/

namespace VersionFloor.Version

/-! ### segments -/

/-- both lists give up their first number, zero when there is none -/
theorem compareSegments_step (a b : List Nat) :
    compareSegments a b =
      (compare (a.head?.getD 0) (b.head?.getD 0)).then (compareSegments a.tail b.tail) := by
  cases a with
  | nil =>
    cases b with
    | nil => simp only [List.tail_nil, List.head?_nil, Std.ReflCmp.compare_self, Ordering.eq_then]
    | cons y b => rw [compareSegments]; rfl
  | cons x a =>
    cases b with
    | nil => rw [compareSegments]; rfl
    | cons y b => rw [compareSegments]; rfl

theorem compareSegments_eq_padded (n : Nat) (a b : List Nat) (ha : a.length ≤ n)
    (hb : b.length ≤ n) :
    compareSegments a b = List.compareLex compare (a.takeD n 0) (b.takeD n 0) := by
  induction n generalizing a b with
  | zero =>
    rw [List.length_eq_zero_iff.mp (Nat.le_zero.mp ha),
      List.length_eq_zero_iff.mp (Nat.le_zero.mp hb), compareSegments]
    rfl
  | succ n ih =>
    have ha' : a.tail.length ≤ n := by rw [List.length_tail]; omega
    have hb' : b.tail.length ≤ n := by rw [List.length_tail]; omega
    rw [compareSegments_step, ih _ _ ha' hb']
    rw [List.takeD_succ, List.takeD_succ, List.compareLex_cons_cons]

instance : Std.TransCmp compareSegments where
  eq_swap {a b} := by
    have ha := Nat.le_max_left a.length b.length
    have hb := Nat.le_max_right a.length b.length
    rw [compareSegments_eq_padded _ a b ha hb, compareSegments_eq_padded _ b a hb ha]
    exact Std.OrientedCmp.eq_swap
  isLE_trans {a b c} := by
    have ha : a.length ≤ max a.length (max b.length c.length) := by omega
    have hb : b.length ≤ max a.length (max b.length c.length) := by omega
    have hc : c.length ≤ max a.length (max b.length c.length) := by omega
    rw [compareSegments_eq_padded _ a b ha hb, compareSegments_eq_padded _ b c hb hc,
      compareSegments_eq_padded _ a c ha hc]
    exact Std.TransCmp.isLE_trans

/-! ### numbers -/

/-- the number at a place, zero behind the last one -/
def number (v : Version) (i : Nat) : Nat := v.segments[i]?.getD 0

/-- at the first place where the numbers differ, the number of `v` is the greater one -/
def IsAbove (v w : Version) : Prop :=
  ∃ i, (∀ j < i, v.number j = w.number j) ∧ w.number i < v.number i

theorem compareSegments_eq_gt (n : Nat) (a b : List Nat) (ha : a.length ≤ n) (hb : b.length ≤ n) :
    compareSegments a b = .gt ↔
      ∃ i : Nat, (∀ j < i, a[j]?.getD 0 = b[j]?.getD 0) ∧ b[i]?.getD 0 < a[i]?.getD 0 := by
  induction n generalizing a b with
  | zero =>
    rw [List.length_eq_zero_iff.mp (Nat.le_zero.mp ha),
      List.length_eq_zero_iff.mp (Nat.le_zero.mp hb), compareSegments]
    simp
  | succ n ih =>
    have ha' : a.tail.length ≤ n := by rw [List.length_tail]; omega
    have hb' : b.tail.length ≤ n := by rw [List.length_tail]; omega
    rw [compareSegments_step, Ordering.then_eq_gt, Nat.compare_eq_gt, Nat.compare_eq_eq,
      ih _ _ ha' hb', List.head?_eq_getElem?, List.head?_eq_getElem?]
    constructor
    · rintro (hgt | ⟨heq, i, hbefore, hgt⟩)
      · exact ⟨0, fun j hj => absurd hj (Nat.not_lt_zero j), hgt⟩
      · refine ⟨i + 1, fun j hj => ?_, by simpa using hgt⟩
        cases j with
        | zero => exact heq
        | succ j => simpa using hbefore j (Nat.lt_of_succ_lt_succ hj)
    · rintro ⟨i, hbefore, hgt⟩
      cases i with
      | zero => exact .inl hgt
      | succ i =>
        refine .inr ⟨hbefore 0 (Nat.succ_pos i), i, fun j hj => ?_, by simpa using hgt⟩
        simpa using hbefore (j + 1) (Nat.succ_lt_succ hj)

theorem exceeds_iff (v w : Version) : v.exceeds w = true ↔ v.IsAbove w := by
  have hv := Nat.le_max_left v.segments.length w.segments.length
  have hw := Nat.le_max_right v.segments.length w.segments.length
  rw [exceeds, beq_iff_eq, compareSegments_eq_gt _ _ _ hv hw]
  rfl

theorem exceeds_eq_false_iff (v w : Version) :
    v.exceeds w = false ↔ (compareSegments v.segments w.segments).isLE = true := by
  rw [exceeds, beq_eq_false_iff_ne, Ordering.isLE_iff_ne_gt]

/-- what is not greater than a version that is not greater than another one is not greater either -/
theorem not_exceeds_trans {u v w : Version} (h : u.exceeds v = false) (h' : v.exceeds w = false) :
    u.exceeds w = false := by
  rw [exceeds_eq_false_iff] at h h' ⊢
  exact Std.TransCmp.isLE_trans h h'

/-- versions with the same numbers are above the same versions and below the same ones -/
theorem forall_exceeds_iff (v w : Version) :
    (∀ u : Version, v.exceeds u = w.exceeds u ∧ u.exceeds v = u.exceeds w) ↔
      compareSegments v.segments w.segments = .eq := by
  constructor
  · intro h
    have heq : compareSegments w.segments w.segments = .eq := Std.ReflCmp.compare_self
    have hself : w.exceeds w = false := by
      rw [exceeds, heq]
      rfl
    have hvw : v.exceeds w = false := (h w).1.trans hself
    have hwv : w.exceeds v = false := (h w).2.trans hself
    rw [exceeds_eq_false_iff] at hvw hwv
    exact Std.OrientedCmp.isLE_antisymm hvw hwv
  · intro h u
    unfold exceeds
    rw [Std.TransCmp.congr_left h, Std.TransCmp.congr_right h]
    exact ⟨rfl, rfl⟩

/-! ### versions -/

theorem order_eq_compareLex :
    order = compareLex (fun v w => compareSegments v.segments w.segments) (compareOn text) := rfl

instance : Std.TransCmp fun v w : Version => compareSegments v.segments w.segments where
  eq_swap := Std.OrientedCmp.eq_swap
  isLE_trans := Std.TransCmp.isLE_trans

instance : Std.TransCmp order := by
  rw [order_eq_compareLex]
  infer_instance

theorem ext_text {v w : Version} (h : v.text = w.text) : v = w := by
  cases v
  cases w
  cases h
  rfl

instance : Std.LawfulEqCmp order where
  compare_self := Std.ReflCmp.compare_self
  eq_of_compare {v w} h := by
    have ht : compare v.text w.text = .eq := (Ordering.then_eq_eq.mp h).2
    exact ext_text (Std.LawfulEqCmp.eq_of_compare ht)

theorem order_self_ne_gt (v : Version) : order v v ≠ .gt := by
  have heq : order v v = .eq := Std.ReflCmp.compare_self
  rw [heq]
  decide

/-- the order refines that of the numbers -/
theorem not_exceeds_of_order {v w : Version} (h : order v w ≠ .gt) : v.exceeds w = false := by
  rw [exceeds, beq_eq_false_iff_ne]
  intro hgt
  exact h (by rw [order, hgt]; rfl)

theorem order_ne_gt_trans {u v w : Version} (h : order u v ≠ .gt) (h' : order v w ≠ .gt) :
    order u w ≠ .gt :=
  Ordering.isLE_iff_ne_gt.mp (Std.TransCmp.isLE_trans (Ordering.isLE_iff_ne_gt.mpr h)
    (Ordering.isLE_iff_ne_gt.mpr h'))

/-! ### the larger of two -/

theorem larger_comm (v w : Version) : larger v w = larger w v := by
  unfold larger
  cases h : order v w with
  | lt => rw [if_neg (by decide), if_pos (Std.OrientedCmp.gt_of_lt h)]
  | eq =>
    have he : v = w := Std.LawfulEqCmp.eq_of_compare h
    rw [he]
    simp
  | gt => rw [if_pos rfl, if_neg (by rw [Std.OrientedCmp.lt_of_gt h]; decide)]

theorem larger_assoc (u v w : Version) : larger (larger u v) w = larger u (larger v w) := by
  unfold larger
  by_cases huv : order u v = .gt
  · rw [if_pos huv]
    by_cases hvw : order v w = .gt
    · rw [if_pos hvw, if_pos huv, if_pos (Std.TransCmp.gt_trans huv hvw)]
    · rw [if_neg hvw]
  · rw [if_neg huv]
    by_cases hvw : order v w = .gt
    · rw [if_pos hvw, if_neg huv]
    · rw [if_neg hvw, if_neg (order_ne_gt_trans huv hvw)]

theorem larger_self (v : Version) : larger v v = v := by
  unfold larger
  split <;> rfl

theorem order_larger_left (v w : Version) : order v (larger v w) ≠ .gt := by
  unfold larger
  by_cases h : order v w = .gt
  · rw [if_pos h]
    exact order_self_ne_gt v
  · rw [if_neg h]
    exact h

theorem order_larger_right (v w : Version) : order w (larger v w) ≠ .gt := by
  rw [larger_comm]
  exact order_larger_left w v

instance : Std.Commutative larger := ⟨larger_comm⟩

instance : Std.Associative larger := ⟨larger_assoc⟩

instance : Std.IdempotentOp larger := ⟨larger_self⟩

/-! ### the larger of two that may be absent -/

theorem larger?_eq_merge : larger? = Option.merge larger := by
  funext v w
  cases v <;> cases w <;> rfl

theorem larger?_comm (v w : Option Version) : larger? v w = larger? w v := by
  rw [larger?_eq_merge]
  exact Std.Commutative.comm v w

theorem larger?_assoc (u v w : Option Version) :
    larger? (larger? u v) w = larger? u (larger? v w) := by
  rw [larger?_eq_merge]
  exact Std.Associative.assoc u v w

theorem larger?_self (v : Option Version) : larger? v v = v := by
  rw [larger?_eq_merge]
  exact Std.IdempotentOp.idempotent v

theorem larger?_none (v : Option Version) : larger? v none = v := by
  rw [larger?_eq_merge, Option.merge_none_right]

theorem none_larger? (v : Option Version) : larger? none v = v := by
  rw [larger?_comm, larger?_none]

end VersionFloor.Version
