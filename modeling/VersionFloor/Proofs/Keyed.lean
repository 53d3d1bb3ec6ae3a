import Mathlib.Data.String.Basic
import VersionFloor.Keyed

/-!
# Tables: what they hold

A table is known by what it finds (`ext`), a new value changes one key (`find?_add`), and a union
joins key by key (`find?_union`).  So unions inherit the laws of the function that joins two values.
-/

namespace VersionFloor.Keyed

variable {α : Type}

/-! ### looking up -/

theorem lookup_cons (k k' : String) (v : α) (es : List (String × α)) :
    ((k', v) :: es).lookup k = if k = k' then some v else es.lookup k := by
  rw [List.lookup_cons]
  by_cases hk : k = k'
  · rw [if_pos hk, beq_iff_eq.mpr hk]
  · rw [if_neg hk, beq_false_of_ne hk]

theorem lookup_eq_none_of_lt {key : String} {es : List (String × α)}
    (h : ∀ e ∈ es, key < e.1) : es.lookup key = none := by
  rw [List.lookup_eq_none_iff]
  intro e he
  exact bne_iff_ne.mpr (ne_of_lt (h e he))

theorem lookup_putIn (key k : String) (f : Option α → α) {es : List (String × α)}
    (h : es.Pairwise fun a b => a.1 < b.1) :
    (putIn key f es).lookup k = if k = key then some (f (es.lookup key)) else es.lookup k := by
  induction es with
  | nil => exact lookup_cons k key (f none) []
  | cons a rest ih =>
    obtain ⟨k', v⟩ := a
    obtain ⟨hlt, hrest⟩ := List.pairwise_cons.mp h
    rw [putIn]
    by_cases h1 : key < k'
    · have hnone : ((k', v) :: rest).lookup key = none := by
        refine lookup_eq_none_of_lt fun e he => ?_
        rcases List.mem_cons.mp he with rfl | hm
        · exact h1
        · exact lt_trans h1 (hlt e hm)
      rw [if_pos h1, hnone, lookup_cons]
    · rw [if_neg h1]
      by_cases h2 : key = k'
      · subst h2
        rw [if_pos rfl, lookup_cons, lookup_cons, lookup_cons, if_pos rfl]
        by_cases hk : k = key <;> simp only [hk, if_true, if_false]
      · rw [if_neg h2, lookup_cons, ih hrest, lookup_cons key, if_neg h2, lookup_cons]
        by_cases hk : k = k'
        · have hne : ¬ k = key := fun e => h2 (e.symm.trans hk)
          rw [if_pos hk, if_neg hne, if_pos hk]
        · rw [if_neg hk, if_neg hk]

theorem find?_empty (k : String) : (∅ : Keyed α).find? k = none := rfl

theorem find?_put (t : Keyed α) (key k : String) (f : Option α → α) :
    (t.put key f).find? k = if k = key then some (f (t.find? key)) else t.find? k :=
  lookup_putIn key k f t.ascending

theorem find?_add (f : α → α → α) (t : Keyed α) (key k : String) (a : α) :
    (t.add f key a).find? k =
      if k = key then Option.merge f (t.find? k) (some a) else t.find? k := by
  rw [add, find?_put]
  by_cases hk : k = key
  · subst hk
    rw [if_pos rfl, if_pos rfl]
    cases t.find? k <;> rfl
  · rw [if_neg hk, if_neg hk]

theorem find?_foldl_add (f : α → α → α) (k : String) {es : List (String × α)} (s : Keyed α)
    (h : es.Pairwise fun a b => a.1 < b.1) :
    (es.foldl (fun s e => s.add f e.1 e.2) s).find? k =
      Option.merge f (s.find? k) (es.lookup k) := by
  induction es generalizing s with
  | nil => exact Option.merge_none_right.symm
  | cons e rest ih =>
    obtain ⟨hlt, hrest⟩ := List.pairwise_cons.mp h
    rw [List.foldl_cons, ih _ hrest, find?_add, lookup_cons]
    by_cases hk : k = e.1
    · have hnone : rest.lookup k = none := lookup_eq_none_of_lt fun a ha => hk ▸ hlt a ha
      rw [if_pos hk, if_pos hk, hnone, Option.merge_none_right]
    · rw [if_neg hk, if_neg hk]

theorem find?_union (f : α → α → α) (s t : Keyed α) (k : String) :
    (s.union f t).find? k = Option.merge f (s.find? k) (t.find? k) :=
  find?_foldl_add f k s t.ascending

/-! ### entries -/

theorem mem_entries_iff {t : Keyed α} {k : String} {v : α} :
    (k, v) ∈ t.entries ↔ t.find? k = some v := by
  obtain ⟨es, h⟩ := t
  show (k, v) ∈ es ↔ es.lookup k = some v
  induction es with
  | nil => simp
  | cons a rest ih =>
    obtain ⟨k', v'⟩ := a
    obtain ⟨hlt, hrest⟩ := List.pairwise_cons.mp h
    rw [List.mem_cons, lookup_cons, ih hrest]
    by_cases hk : k = k'
    · subst hk
      have hnone : rest.lookup k = none := lookup_eq_none_of_lt fun e he => hlt e he
      simp [hnone, eq_comm]
    · simp [hk]

theorem nodup_entries (t : Keyed α) : t.entries.Nodup :=
  t.ascending.imp fun {_ _} hlt he => ne_of_lt hlt (congrArg Prod.fst he)

/-- tables that find the same are equal -/
theorem ext {s t : Keyed α} (h : ∀ k, s.find? k = t.find? k) : s = t := by
  have hmem : ∀ e, e ∈ s.entries ↔ e ∈ t.entries := fun e => by
    rw [← Prod.mk.eta (p := e), mem_entries_iff, mem_entries_iff, h]
  have hperm : s.entries.Perm t.entries :=
    (List.perm_ext_iff_of_nodup s.nodup_entries t.nodup_entries).mpr hmem
  have he : s.entries = t.entries :=
    hperm.eq_of_pairwise (fun a b _ _ hab hba => absurd hba (lt_asymm hab))
      s.ascending t.ascending
  cases s
  cases t
  cases he
  rfl

theorem mem_values_iff {t : Keyed α} {v : α} : v ∈ t.values ↔ ∃ k, t.find? k = some v := by
  simp only [values, List.mem_map, Prod.exists, exists_eq_right, mem_entries_iff]

/-- the values stand in the order of a key that can be read off them -/
theorem pairwise_values {t : Keyed α} (key : α → String)
    (h : ∀ k v, t.find? k = some v → key v = k) :
    t.values.Pairwise fun a b => key a < key b := by
  refine List.pairwise_map.mpr (t.ascending.imp_of_mem fun {a b} ha hb hlt => ?_)
  rw [h a.1 a.2 (mem_entries_iff.mp ha), h b.1 b.2 (mem_entries_iff.mp hb)]
  exact hlt

/-! ### laws of the union -/

section
variable (f : α → α → α)

theorem union_empty (t : Keyed α) : t.union f ∅ = t := rfl

theorem empty_union (t : Keyed α) : Keyed.union f ∅ t = t :=
  ext fun k => by rw [find?_union, find?_empty, Option.merge_none_left]

theorem union_assoc [Std.Associative f] (s t u : Keyed α) :
    (s.union f t).union f u = s.union f (t.union f u) :=
  ext fun k => by
    simp only [find?_union]
    exact Std.Associative.assoc _ _ _

theorem union_comm [Std.Commutative f] (s t : Keyed α) : s.union f t = t.union f s :=
  ext fun k => by
    simp only [find?_union]
    exact Std.Commutative.comm _ _

theorem union_self [Std.IdempotentOp f] (t : Keyed α) : t.union f t = t :=
  ext fun k => by
    simp only [find?_union]
    exact Std.IdempotentOp.idempotent _

/-- one more value is a union with a table of that value alone -/
theorem add_eq_union (t : Keyed α) (key : String) (a : α) :
    t.add f key a = t.union f (Keyed.add f ∅ key a) :=
  ext fun k => by
    rw [find?_union, find?_add, find?_add, find?_empty, Option.merge_none_left]
    by_cases hk : k = key
    · rw [if_pos hk, if_pos hk]
    · rw [if_neg hk, if_neg hk, Option.merge_none_right]

end

end VersionFloor.Keyed
