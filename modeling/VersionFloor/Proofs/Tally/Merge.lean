import VersionFloor.Proofs.Keyed
import VersionFloor.Proofs.Version.Order
import VersionFloor.Report.Tally

/-!
# Tallies: the algebra

`merge` is associative and the empty tally is its identity; it is commutative up to the order of the
skips (`Alike`), and every event is a merge with the tally of that event alone (`step_eq_merge`).
-/

namespace VersionFloor

open Text

/-! ### the smaller of two spellings -/

theorem smaller_eq_min (a b : String) : smaller a b = min a b := by
  unfold smaller
  by_cases h : b < a
  · rw [if_pos h, min_eq_right (le_of_lt h)]
  · rw [if_neg h, min_eq_left (not_lt.mp h)]

theorem smaller_comm (a b : String) : smaller a b = smaller b a := by
  rw [smaller_eq_min, smaller_eq_min, min_comm]

theorem smaller_assoc (a b c : String) : smaller (smaller a b) c = smaller a (smaller b c) := by
  simp only [smaller_eq_min, min_assoc]

theorem smaller_self (a : String) : smaller a a = a := by rw [smaller_eq_min, min_self]

instance : Std.Commutative smaller := ⟨smaller_comm⟩

instance : Std.Associative smaller := ⟨smaller_assoc⟩

instance : Std.IdempotentOp smaller := ⟨smaller_self⟩

/-! ### joined uses of an extension -/

namespace ExtensionUse

instance : Std.Commutative join where
  comm a b := by rw [join, join, smaller_comm, Version.larger?_comm]

instance : Std.Associative join where
  assoc a b c := by
    simp only [join]
    rw [smaller_assoc, Version.larger?_assoc]

instance : Std.IdempotentOp join where
  idempotent a := by rw [join, smaller_self, Version.larger?_self]

end ExtensionUse

namespace Tally

/-- what may happen to a tally, other than a merge -/
inductive Event where
  | used (s : Symbol)
  | scanned
  | skipped (s : Skip)
  deriving DecidableEq

def step (t : Tally) : Event → Tally
  | .used s => t.record s
  | .scanned => t.fileScanned
  | .skipped s => t.fileSkipped s

/-- the tally of this event alone -/
def ofEvent (e : Event) : Tally := step ∅ e

/-- the tally of these events alone -/
def ofEvents (es : List Event) : Tally := es.foldl step ∅

/-- tallies with the same parts are equal -/
theorem ext_parts {s t : Tally} (h1 : s.required = t.required) (h2 : s.functions = t.functions)
    (h3 : s.classes = t.classes) (h4 : s.extensions = t.extensions)
    (h5 : s.isUncertain = t.isUncertain) (h6 : s.unversioned = t.unversioned)
    (h7 : s.scanned = t.scanned) (h8 : s.skipped = t.skipped) : s = t := by
  cases s
  cases t
  cases h1; cases h2; cases h3; cases h4; cases h5; cases h6; cases h7; cases h8
  rfl

/-! ### associativity and identity -/

theorem merge_assoc (s t u : Tally) : (s.merge t).merge u = s.merge (t.merge u) :=
  ext_parts (Version.larger?_assoc ..) (Keyed.union_assoc ..) (Keyed.union_assoc ..)
    (Keyed.union_assoc ..) (Bool.or_assoc ..) (Keyed.union_assoc ..) (Nat.add_assoc ..)
    (List.append_assoc ..)

theorem merge_empty (t : Tally) : t.merge ∅ = t :=
  ext_parts (Version.larger?_none _) rfl rfl rfl (Bool.or_false _) rfl rfl (List.append_nil _)

theorem empty_merge (t : Tally) : Tally.merge ∅ t = t :=
  ext_parts (Version.none_larger? _) (Keyed.empty_union ..) (Keyed.empty_union ..)
    (Keyed.empty_union ..) (Bool.false_or _) (Keyed.empty_union ..) (Nat.zero_add _) rfl

/-! ### events as merges -/

theorem Spellings.add_eq_join (t : Spellings) (s : String) :
    t.add s = t.join (Spellings.add ∅ s) := Keyed.add_eq_union ..

theorem record_eq_merge (t : Tally) (s : Symbol) : t.record s = t.merge (Tally.record ∅ s) := by
  refine ext_parts ?_ (Spellings.add_eq_join ..) ?_ ?_ rfl ?_ rfl (List.append_nil _).symm
  · show Version.larger? t.required _ = Version.larger? t.required (Version.larger? none _)
    rw [Version.none_larger?]
  · show s.owner.elim t.classes t.classes.add = t.classes.join (s.owner.elim ∅ (Spellings.add ∅))
    cases s.owner with
    | none => rfl
    | some owner => exact Spellings.add_eq_join ..
  · show s.extension.elim t.extensions (addExtension t.extensions) =
      t.extensions.union ExtensionUse.join (s.extension.elim ∅ (addExtension ∅))
    cases s.extension with
    | none => rfl
    | some e => exact Keyed.add_eq_union ..
  · show (if s.minVersion.isNone then t.unversioned.add s.qualifiedName else t.unversioned) =
      t.unversioned.join (if s.minVersion.isNone then Spellings.add ∅ s.qualifiedName else ∅)
    cases s.minVersion.isNone with
    | true => exact Spellings.add_eq_join ..
    | false => rfl

theorem step_eq_merge (t : Tally) (e : Event) : t.step e = t.merge (ofEvent e) := by
  cases e with
  | used s => exact record_eq_merge t s
  | scanned =>
    exact ext_parts (Version.larger?_none _).symm rfl rfl rfl (Bool.or_false _).symm rfl rfl
      (List.append_nil _).symm
  | skipped s =>
    exact ext_parts (Version.larger?_none _).symm rfl rfl rfl (Bool.or_false _).symm rfl rfl rfl

/-- events tallied on top of a tally are a merge with their own tally -/
theorem foldl_step_eq_merge (es : List Event) (t : Tally) :
    es.foldl step t = t.merge (ofEvents es) := by
  induction es generalizing t with
  | nil => exact (merge_empty t).symm
  | cons e es ih =>
    have h1 : ofEvents (e :: es) = (ofEvent e).merge (ofEvents es) := ih (ofEvent e)
    rw [List.foldl_cons, ih, step_eq_merge, merge_assoc, h1]

theorem ofEvents_cons (e : Event) (es : List Event) :
    ofEvents (e :: es) = (ofEvent e).merge (ofEvents es) := foldl_step_eq_merge es (ofEvent e)

theorem ofEvents_append (es fs : List Event) :
    ofEvents (es ++ fs) = (ofEvents es).merge (ofEvents fs) := by
  rw [ofEvents, List.foldl_append, foldl_step_eq_merge]
  rfl

/-! ### commutativity -/

def withoutSkips (t : Tally) : Tally := { t with skipped := [] }

theorem withoutSkips_merge (s t : Tally) :
    (s.merge t).withoutSkips = s.withoutSkips.merge t.withoutSkips := rfl

/-- the same tallies up to the order of the skips -/
structure Alike (s t : Tally) : Prop where
  withoutSkips : s.withoutSkips = t.withoutSkips
  skipped : s.skipped.Perm t.skipped

theorem Alike.refl (t : Tally) : t.Alike t := ⟨rfl, .refl _⟩

theorem Alike.trans {s t u : Tally} (h : s.Alike t) (h' : t.Alike u) : s.Alike u :=
  ⟨h.withoutSkips.trans h'.withoutSkips, h.skipped.trans h'.skipped⟩

theorem Alike.eq {s t : Tally} (h : s.Alike t) (hs : s.skipped = t.skipped) : s = t := by
  have he : { s.withoutSkips with skipped := s.skipped } =
      { t.withoutSkips with skipped := t.skipped } := by rw [h.withoutSkips, hs]
  exact he

theorem merge_comm (s t : Tally) : (s.merge t).Alike (t.merge s) := by
  refine ⟨ext_parts (Version.larger?_comm ..) (Keyed.union_comm ..) (Keyed.union_comm ..)
    (Keyed.union_comm ..) (Bool.or_comm ..) (Keyed.union_comm ..) (Nat.add_comm ..) rfl, ?_⟩
  exact List.perm_append_comm

theorem Alike.merge {s s' t t' : Tally} (h : s.Alike s') (h' : t.Alike t') :
    (s.merge t).Alike (s'.merge t') := by
  refine ⟨?_, h.skipped.append h'.skipped⟩
  rw [withoutSkips_merge, withoutSkips_merge, h.withoutSkips, h'.withoutSkips]

/-- the order of the events counts for nothing but the order of the skips -/
theorem ofEvents_perm {es fs : List Event} (h : es.Perm fs) :
    (ofEvents es).Alike (ofEvents fs) := by
  induction h with
  | nil => exact .refl _
  | cons e _ ih =>
    rw [ofEvents_cons, ofEvents_cons]
    exact (Alike.refl _).merge ih
  | swap a b es =>
    simp only [ofEvents_cons, ← merge_assoc]
    exact (merge_comm _ _).merge (.refl _)
  | trans _ _ ih ih' => exact ih.trans ih'

/-! ### recording twice -/

theorem record_record (t : Tally) (s : Symbol) : (t.record s).record s = t.record s := by
  rw [record_eq_merge (t.record s), record_eq_merge t, merge_assoc]
  congr 1
  exact ext_parts (Version.larger?_self _) (Keyed.union_self ..) (Keyed.union_self ..)
    (Keyed.union_self ..) (Bool.or_self _) (Keyed.union_self ..) rfl rfl

/-- a record and another event go in either order; no skip comes from a record -/
theorem record_step_comm (t : Tally) (e : Event) (s : Symbol) :
    (t.step e).record s = (t.record s).step e := by
  have hskips : (ofEvent e).skipped ++ [] = [] ++ (ofEvent e).skipped := List.append_nil _
  have hcomm : (ofEvent e).merge (ofEvent (.used s)) = (ofEvent (.used s)).merge (ofEvent e) :=
    (merge_comm _ _).eq hskips
  show (t.step e).step (.used s) = (t.step (.used s)).step e
  rw [step_eq_merge (t.step e), step_eq_merge (t.step _), step_eq_merge t, step_eq_merge t,
    merge_assoc, merge_assoc, hcomm]

theorem record_foldl_comm (es : List Event) (t : Tally) (s : Symbol) :
    (es.foldl step t).record s = es.foldl step (t.record s) := by
  induction es generalizing t with
  | nil => rfl
  | cons e es ih => rw [List.foldl_cons, ih, record_step_comm, List.foldl_cons]

/-- a symbol that was recorded counts no more when it is recorded again -/
theorem record_of_mem {es : List Event} {s : Symbol} (h : .used s ∈ es) (t : Tally) :
    (es.foldl step t).record s = es.foldl step t := by
  induction es generalizing t with
  | nil => cases h
  | cons e es ih =>
    rw [List.foldl_cons]
    rcases List.mem_cons.mp h with he | hm
    · rw [← he, record_foldl_comm]
      show es.foldl step ((t.record s).record s) = es.foldl step (t.record s)
      rw [record_record]
    · exact ih hm _

end Tally

end VersionFloor
