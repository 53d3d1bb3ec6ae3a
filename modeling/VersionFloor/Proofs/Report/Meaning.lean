import Mathlib.Order.Bounds.Basic
import VersionFloor.Catalog.Symbol
import VersionFloor.Proofs.Version.Order
import VersionFloor.Report.Basic
import VersionFloor.Text.Case

/-!
# Reports: what one is to say of the symbols used

`Report.Describes` says of a set of symbols which names are listed and which versions are the
highest.  The lists hold each name once for every lower case.
-/

namespace VersionFloor

open Text

variable {α β : Type}

/-! ### what some of these give -/

/-- what `f` gives for some of these -/
def given (f : β → Option α) (bs : Set β) : Set α := {a | ∃ b ∈ bs, f b = some a}

theorem given_empty (f : β → Option α) : given f ∅ = ∅ :=
  Set.eq_empty_of_forall_notMem fun _ ⟨_, hb, _⟩ => hb

theorem given_union (f : β → Option α) (bs cs : Set β) :
    given f (bs ∪ cs) = given f bs ∪ given f cs := by
  ext a
  constructor
  · rintro ⟨b, hb | hb, hf⟩
    · exact .inl ⟨b, hb, hf⟩
    · exact .inr ⟨b, hb, hf⟩
  · rintro (⟨b, hb, hf⟩ | ⟨b, hb, hf⟩)
    · exact ⟨b, .inl hb, hf⟩
    · exact ⟨b, .inr hb, hf⟩

theorem given_singleton (f : β → Option α) (b : β) : given f {b} = {a | f b = some a} := by
  ext a
  constructor
  · rintro ⟨_, rfl, hf⟩
    exact hf
  · exact fun hf => ⟨b, rfl, hf⟩

theorem setOf_none_eq : {a : α | none = some a} = ∅ :=
  Set.eq_empty_of_forall_notMem fun _ h => nomatch h

theorem setOf_some_eq (a : α) : {b : α | some a = some b} = {a} := by
  ext b
  exact ⟨fun h => (Option.some.inj h).symm, fun h => congrArg some (Eq.symm h)⟩

/-! ### one value for many -/

/-- `P` holds of the value that stands for these; no value stands for no things -/
def Represents (P : Set β → α → Prop) (bs : Set β) : Option α → Prop
  | none => bs = ∅
  | some a => P bs a

/-- when `f` joins the values for two sets, it makes the value for their union -/
theorem Represents.union {P : Set β → α → Prop} {f : α → α → α}
    (hf : ∀ {bs cs : Set β} {a b : α}, P bs a → P cs b → P (bs ∪ cs) (f a b)) {bs cs : Set β}
    {o p : Option α} (ho : Represents P bs o) (hp : Represents P cs p) :
    Represents P (bs ∪ cs) (Option.merge f o p) := by
  cases o with
  | none =>
    have hbs : bs = ∅ := ho
    rw [hbs, Set.empty_union, Option.merge_none_left]
    exact hp
  | some a =>
    cases p with
    | none =>
      have hcs : cs = ∅ := hp
      rw [hcs, Set.union_empty]
      exact ho
    | some b => exact hf ho hp

/-! ### the highest version -/

namespace Version

/-- the highest of these versions; absent when there are none -/
def IsHighest : Set Version → Option Version → Prop :=
  Represents fun vs v => v ∈ vs ∧ ∀ w ∈ vs, order w v ≠ .gt

theorem larger_mem {vs ws : Set Version} {v w : Version} (hv : v ∈ vs) (hw : w ∈ ws) :
    larger v w ∈ vs ∪ ws := by
  unfold larger
  by_cases h : order v w = .gt
  · rw [if_pos h]
    exact .inl hv
  · rw [if_neg h]
    exact .inr hw

theorem IsHighest.union {vs ws : Set Version} {o p : Option Version} (h : IsHighest vs o)
    (h' : IsHighest ws p) : IsHighest (vs ∪ ws) (larger? o p) := by
  rw [larger?_eq_merge]
  refine Represents.union (fun {vs ws v w} hv hw => ⟨larger_mem hv.1 hw.1, ?_⟩) h h'
  rintro u (hu | hu)
  · exact order_ne_gt_trans (hv.2 u hu) (order_larger_left v w)
  · exact order_ne_gt_trans (hw.2 u hu) (order_larger_right v w)

theorem isHighest_self (o : Option Version) : IsHighest {v | o = some v} o := by
  cases o with
  | none => exact setOf_none_eq
  | some v =>
    refine ⟨rfl, fun w hw => ?_⟩
    cases hw
    exact order_self_ne_gt v

end Version

/-! ### reports -/

/-- a list of these names, in the order of their lower case: names that differ in case only make one
entry, the smallest of them -/
structure Lists (entries : List String) (names : Set String) : Prop where
  ascending : entries.Pairwise fun a b => lower a < lower b
  mem_iff : ∀ n, n ∈ entries ↔ IsLeast {m ∈ names | lower m = lower n} n
  complete : ∀ m ∈ names, ∃ n ∈ entries, lower n = lower m

/-- what a report says of the symbols that are used -/
structure Report.Describes (r : Report) (used : Set Symbol) : Prop where
  required : Version.IsHighest (given (·.minVersion) used) r.required
  functions : Lists r.functions (Symbol.qualifiedName '' used)
  classes : Lists r.classes (given (·.owner) used)
  extensions : Lists (r.extensions.map (·.name)) (Extension.name '' given (·.extension) used)
  extensionVersions : ∀ e ∈ r.extensions,
    Version.IsHighest
      (given (·.minVersion) {x ∈ given (·.extension) used | lower x.name = lower e.name}) e.required
  isUncertain : r.isUncertain = true ↔ ∃ s ∈ used, s.minVersion = none
  unversioned : Lists r.unversioned (Symbol.qualifiedName '' {s ∈ used | s.minVersion = none})

end VersionFloor
