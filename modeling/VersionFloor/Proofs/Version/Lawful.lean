import Mathlib.Order.Defs.Unbundled
import VersionFloor.Proofs.Version.Order

/-!
# Versions: the laws of comparing

`order` is a linear order of the texts, and `exceeds` a strict order within it that sees the numbers
only: two versions of which neither exceeds the other differ in spelling at most, and no third
version can tell them apart.  `larger?` is a maximum with the absent version as its least element
(`order_lawful`).
-/

namespace VersionFloor.Version

open Text

/-! ### the order -/

theorem order_eq_eq_iff (v w : Version) : order v w = .eq ↔ v.text = w.text := by
  constructor
  · intro h
    exact congrArg text (Std.LawfulEqCmp.eq_of_compare h)
  · intro h
    rw [ext_text h]
    exact Std.ReflCmp.compare_self

theorem isLinearOrder_order : IsLinearOrder Version fun v w => (order v w).isLE = true where
  refl v := Std.ReflCmp.isLE_rfl
  trans u v w h h' := Std.TransCmp.isLE_trans h h'
  antisymm v w h h' := Std.LawfulEqCmp.eq_of_compare (Std.OrientedCmp.isLE_antisymm h h')
  total v w := by
    cases h : order v w with
    | lt => exact .inl rfl
    | eq => exact .inl rfl
    | gt =>
      have hwv : order w v = .lt := Std.OrientedCmp.lt_of_gt h
      exact .inr (by rw [hwv]; rfl)

theorem order_eq_gt_of_exceeds {v w : Version} (h : v.exceeds w = true) : order v w = .gt := by
  have hgt : compareSegments v.segments w.segments = .gt := beq_iff_eq.mp h
  rw [order, hgt]
  rfl

/-! ### numbers -/

/-- neither exceeds the other -/
def SameNumber (v w : Version) : Prop := v.exceeds w = false ∧ w.exceeds v = false

theorem sameNumber_iff (v w : Version) :
    SameNumber v w ↔ compareSegments v.segments w.segments = .eq := by
  rw [SameNumber, exceeds_eq_false_iff, exceeds_eq_false_iff]
  constructor
  · rintro ⟨hvw, hwv⟩
    exact Std.OrientedCmp.isLE_antisymm hvw hwv
  · intro h
    rw [Std.OrientedCmp.eq_comm.mp h, h]
    exact ⟨rfl, rfl⟩

theorem isStrictOrder_exceeds : IsStrictOrder Version fun v w => v.exceeds w = true where
  irrefl v h := by
    have heq : compareSegments v.segments v.segments = .eq := Std.ReflCmp.compare_self
    rw [exceeds, heq] at h
    cases h
  trans u v w h h' := by
    have huv : compareSegments u.segments v.segments = .gt := beq_iff_eq.mp h
    have hvw : compareSegments v.segments w.segments = .gt := beq_iff_eq.mp h'
    exact beq_iff_eq.mpr (Std.TransCmp.gt_trans huv hvw)

theorem sameNumber_equivalence : Equivalence SameNumber where
  refl v := (sameNumber_iff v v).mpr Std.ReflCmp.compare_self
  symm h := ⟨h.2, h.1⟩
  trans h h' :=
    ⟨not_exceeds_trans h.1 h'.1, not_exceeds_trans h'.2 h.2⟩

/-! ### the larger of two -/

instance : Std.Commutative larger? := ⟨larger?_comm⟩

instance : Std.Associative larger? := ⟨larger?_assoc⟩

instance : Std.IdempotentOp larger? := ⟨larger?_self⟩

instance : Std.LawfulIdentity larger? none where
  left_id := none_larger?
  right_id := larger?_none

/-! ### texts -/

/-- the text of a version is read as that version -/
theorem parse?_text (v : Version) : parse? v.text = some v := by
  rw [parse?]
  split
  · rename_i h
    cases v.written.symm.trans h
  · rename_i t h
    cases v.written.symm.trans h
    rfl

/-- ways to write one number -/
def spellings : List String := ["5.3", "5.3.0", "5.3.0RC1"]

theorem sameNumber_of_mem_spellings {v w : Version} (hv : v.text ∈ spellings)
    (hw : w.text ∈ spellings) : SameNumber v w := by
  have hall : ∀ s ∈ spellings, (splitAll '.' s.toList).map segment = [5, 3] ∨
      (splitAll '.' s.toList).map segment = [5, 3, 0] := by
    decide +kernel
  rw [sameNumber_iff, segments, segments]
  rcases hall v.text hv with h | h <;> rcases hall w.text hw with h' | h' <;> rw [h, h'] <;>
    simp [compareSegments]

/-- **Versions are ordered lawfully**: the order is linear and tells all texts apart, exceeding is a
strict order within it whose ties no third version can tell apart, the larger of two versions does
not depend on how they are taken together, and a version is known by its text. -/
theorem order_lawful :
    IsLinearOrder Version (fun v w => (order v w).isLE = true) ∧
      (∀ v w : Version, order w v = (order v w).swap ∧ (order v w = .eq ↔ v.text = w.text)) ∧
      IsStrictOrder Version (fun v w => v.exceeds w = true) ∧
      Equivalence SameNumber ∧
      (∀ v w : Version, SameNumber v w ↔
        ∀ u : Version, v.exceeds u = w.exceeds u ∧ u.exceeds v = u.exceeds w) ∧
      (∀ v w : Version, v.text ∈ spellings → w.text ∈ spellings → SameNumber v w) ∧
      (∀ v w : Version, v.exceeds w = true → order v w = .gt) ∧
      (Std.Associative larger? ∧ Std.Commutative larger? ∧ Std.IdempotentOp larger? ∧
        Std.LawfulIdentity larger? none) ∧
      ∀ v : Version, parse? v.text = some v := by
  have hties (v w : Version) : SameNumber v w ↔
      ∀ u : Version, v.exceeds u = w.exceeds u ∧ u.exceeds v = u.exceeds w := by
    rw [sameNumber_iff, forall_exceeds_iff]
  exact ⟨isLinearOrder_order, fun v w => ⟨Std.OrientedCmp.eq_swap, order_eq_eq_iff v w⟩,
    isStrictOrder_exceeds, sameNumber_equivalence, hties,
    fun _ _ => sameNumber_of_mem_spellings, fun _ _ => order_eq_gt_of_exceeds,
    ⟨inferInstance, inferInstance, inferInstance, inferInstance⟩, parse?_text⟩

end VersionFloor.Version
