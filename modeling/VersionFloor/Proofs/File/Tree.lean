import Mathlib.Data.List.Nodup
import VersionFloor.File.Tree

/-!
# Files: well-formed trees

In a well-formed tree the entries of a directory have names of their own, so a node is known by the
names that lead to it.
-/

namespace VersionFloor.FileTree

/-- a name that an entry of a directory may have -/
def IsEntryName (s : String) : Prop := s ≠ "" ∧ '/' ∉ s.toList

instance (s : String) : Decidable (IsEntryName s) := inferInstanceAs (Decidable (_ ∧ _))

inductive WellFormed : FileTree → Prop
  | file (content : Text.Bytes) : WellFormed (.file content)
  | link (target : String) : WellFormed (.link target)
  | dir {entries : List (String × FileTree)} (distinct : (entries.map Prod.fst).Nodup)
      (names : ∀ e ∈ entries, IsEntryName e.1) (below : ∀ e ∈ entries, WellFormed e.2) :
      WellFormed (.dir entries)

/-! ### entries -/

/-- where names are distinct, a lookup finds every entry -/
theorem lookup_eq_some_iff {entries : List (String × FileTree)}
    (h : (entries.map Prod.fst).Nodup) {name : String} {n : FileTree} :
    entries.lookup name = some n ↔ (name, n) ∈ entries := by
  induction entries with
  | nil => simp
  | cons e entries ih =>
    obtain ⟨k, m⟩ := e
    rw [List.map_cons, List.nodup_cons] at h
    rw [List.lookup_cons, List.mem_cons, Prod.mk.injEq]
    by_cases hk : name = k
    · subst hk
      have habsent : (name, n) ∉ entries := fun hn => h.1 (List.mem_map.mpr ⟨_, hn, rfl⟩)
      simp [habsent, eq_comm]
    · rw [beq_false_of_ne hk, ih h.2]
      simp [hk]

theorem at?_append (n : FileTree) (p q : List String) :
    n.at? (p ++ q) = (n.at? p).bind (·.at? q) := by
  induction p generalizing n with
  | nil => rfl
  | cons name p ih =>
    rw [List.cons_append, at?, at?]
    cases n.child? name with
    | none => rfl
    | some m => exact ih m

/-- a directory is put into an empty one with those on the way -/
theorem at?_insert_dir (names : List String) :
    ((FileTree.dir []).insert names (.dir [])).at? names = some (.dir []) := by
  induction names with
  | nil => rfl
  | cons name rest ih =>
    have hinsert : (FileTree.dir []).insert (name :: rest) (.dir []) =
        .dir [(name, (FileTree.dir []).insert rest (.dir []))] := by
      cases rest <;> rfl
    rw [hinsert, FileTree.at?, child?, List.lookup_cons_self]
    exact ih

/-- nothing stands below a link -/
theorem at?_link {target : String} {names : List String} {n : FileTree}
    (h : (FileTree.link target).at? names = some n) : n = .link target := by
  cases names with
  | nil => exact (Option.some.inj h).symm
  | cons name rest => cases h

/-- on the way to a node that is no link there is none -/
theorem not_link_of_prefix {n m : FileTree} {p names : List String} (h : n.at? names = some m)
    (hm : ∀ target, m ≠ .link target) (hp : p <+: names) (target : String) :
    n.at? p ≠ some (.link target) := by
  intro hlink
  obtain ⟨q, rfl⟩ := hp
  rw [at?_append, hlink] at h
  exact hm target (at?_link h)

theorem WellFormed.at? {n m : FileTree} (h : n.WellFormed) {names : List String}
    (hm : n.at? names = some m) : m.WellFormed ∧ ∀ name ∈ names, IsEntryName name := by
  induction names generalizing n with
  | nil => exact ⟨Option.some.inj hm ▸ h, fun name hn => absurd hn List.not_mem_nil⟩
  | cons name names ih =>
    rw [FileTree.at?] at hm
    obtain ⟨c, hc, hbelow⟩ := Option.bind_eq_some_iff.mp hm
    cases h with
    | file content => cases hc
    | link target => cases hc
    | dir distinct hnames below =>
      have hmem := (lookup_eq_some_iff distinct).mp hc
      obtain ⟨hwell, hrest⟩ := ih (below _ hmem) hbelow
      exact ⟨hwell, List.forall_mem_cons.mpr ⟨hnames _ hmem, hrest⟩⟩

end VersionFloor.FileTree
