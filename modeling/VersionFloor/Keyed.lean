/-!
# Tables: text keys in their order

A table is kept in the order of its keys, and each key stands in it once.
-/

namespace VersionFloor

/-- the order of the keys is that of their code points -/
structure Keyed (α : Type) where
  entries : List (String × α)
  ascending : entries.Pairwise fun a b => a.1 < b.1

namespace Keyed

variable {α : Type}

def empty : Keyed α := ⟨[], .nil⟩

instance : EmptyCollection (Keyed α) := ⟨empty⟩

instance [DecidableEq α] : DecidableEq (Keyed α) := fun a b =>
  match decEq a.entries b.entries with
  | isTrue h => isTrue (by cases a; cases b; cases h; rfl)
  | isFalse h => isFalse (fun e => h (congrArg entries e))

def keys (t : Keyed α) : List String := t.entries.map (·.1)

def values (t : Keyed α) : List α := t.entries.map (·.2)

def find? (t : Keyed α) (key : String) : Option α := t.entries.lookup key

/-- `f` makes the new value out of the old one -/
def putIn (key : String) (f : Option α → α) : List (String × α) → List (String × α)
  | [] => [(key, f none)]
  | (k, v) :: rest =>
    if key < k then (key, f none) :: (k, v) :: rest
    else if key = k then (k, f (some v)) :: rest
    else (k, v) :: putIn key f rest

theorem mem_putIn {key : String} {f : Option α → α} {es : List (String × α)} {e : String × α}
    (h : e ∈ putIn key f es) : e.1 = key ∨ e ∈ es := by
  induction es with
  | nil =>
    simp only [putIn, List.mem_singleton] at h
    exact .inl (by rw [h])
  | cons a rest ih =>
    obtain ⟨k, v⟩ := a
    rw [putIn] at h
    split at h
    · cases List.mem_cons.mp h with
      | inl he => exact .inl (by rw [he])
      | inr hm => exact .inr hm
    · split at h
      · cases List.mem_cons.mp h with
        | inl he => exact .inl (by rw [he]; exact (by assumption : key = k).symm)
        | inr hm => exact .inr (List.mem_cons_of_mem _ hm)
      · cases List.mem_cons.mp h with
        | inl he => exact .inr (by rw [he]; exact List.mem_cons_self)
        | inr hm =>
          cases ih hm with
          | inl hk => exact .inl hk
          | inr hr => exact .inr (List.mem_cons_of_mem _ hr)

theorem lt_of_not_lt_of_ne {a b : String} (h : ¬ a < b) (hne : a ≠ b) : b < a := by
  apply Decidable.byContradiction
  intro hb
  exact hne (String.le_antisymm (String.not_lt.mp hb) (String.not_lt.mp h))

theorem pairwise_putIn (key : String) (f : Option α → α) {es : List (String × α)}
    (h : es.Pairwise fun a b => a.1 < b.1) :
    (putIn key f es).Pairwise fun a b => a.1 < b.1 := by
  induction es with
  | nil => exact List.pairwise_singleton _ _
  | cons a rest ih =>
    obtain ⟨k, v⟩ := a
    obtain ⟨hk, hrest⟩ := List.pairwise_cons.mp h
    rw [putIn]
    split
    · rename_i hlt
      refine List.pairwise_cons.mpr ⟨fun b hb => ?_, h⟩
      cases List.mem_cons.mp hb with
      | inl he => rw [he]; exact hlt
      | inr hm => exact String.lt_trans hlt (hk b hm)
    · split
      · exact List.pairwise_cons.mpr ⟨fun b hb => hk b hb, hrest⟩
      · rename_i hnlt hne
        refine List.pairwise_cons.mpr ⟨fun b hb => ?_, ih hrest⟩
        cases mem_putIn hb with
        | inl he => rw [he]; exact lt_of_not_lt_of_ne hnlt hne
        | inr hm => exact hk b hm

/-- sets the value of one key -/
def put (t : Keyed α) (key : String) (f : Option α → α) : Keyed α :=
  ⟨putIn key f t.entries, pairwise_putIn key f t.ascending⟩

/-- gives a key one more value, which `f` joins with the value that is there -/
def add (f : α → α → α) (t : Keyed α) (key : String) (a : α) : Keyed α :=
  t.put key fun
    | none => a
    | some old => f old a

/-- the entries of both; `f` joins two values of one key -/
def union (f : α → α → α) (s t : Keyed α) : Keyed α :=
  t.entries.foldl (fun s e => s.add f e.1 e.2) s

end Keyed

end VersionFloor
