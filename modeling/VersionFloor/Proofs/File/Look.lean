import VersionFloor.Proofs.File.Tree

/-!
# Files: what stands where, and how a tree grows

`look` says whether there is a file, a link or a directory at the end of a list of names, whatever
is in the directory; of two trees the second has grown out of the first when nothing else than
directories has come to it (`Grows`).  A node put into a directory changes nothing anywhere else
(`look_insert_of_ne`).
-/

namespace VersionFloor.FileTree

/-- a directory without what is in it -/
def outside : FileTree → FileTree
  | .dir _ => .dir []
  | n => n

/-- what stands at the end of a list of names -/
def look (n : FileTree) (names : List String) : Option FileTree := (n.at? names).map outside

/-- the directories and links stay where they are -/
structure KeepsWays (n m : FileTree) : Prop where
  dirs : ∀ names, n.look names = some (.dir []) → m.look names = some (.dir [])
  links : ∀ names target, n.look names = some (.link target) → m.look names = some (.link target)

/-- new directories apart, nothing has come or gone and nothing has changed -/
def Grows (n m : FileTree) : Prop :=
  ∀ names, m.look names = n.look names ∨ n.look names = none ∧ m.look names = some (.dir [])

/-! ### what stands where -/

theorem look_eq_none_iff {n : FileTree} {names : List String} :
    n.look names = none ↔ n.at? names = none := Option.map_eq_none_iff

theorem look_eq_dir_iff {n : FileTree} {names : List String} :
    n.look names = some (.dir []) ↔ ∃ es, n.at? names = some (.dir es) := by
  rw [look]
  cases n.at? names with
  | none => simp
  | some m => cases m <;> simp [outside]

theorem look_dir_of_any {n : FileTree} {names : List String}
    (h : (n.at? names).any isDir = true) : n.look names = some (.dir []) := by
  obtain ⟨m, hm, hdir⟩ := (Option.any_eq_true ..).mp h
  cases m with
  | dir es => exact look_eq_dir_iff.mpr ⟨es, hm⟩
  | _ => cases hdir

theorem look_eq_file_iff {n : FileTree} {names : List String} {content : Text.Bytes} :
    n.look names = some (.file content) ↔ n.at? names = some (.file content) := by
  rw [look]
  cases n.at? names with
  | none => simp
  | some m => cases m <;> simp [outside]

theorem look_eq_link_iff {n : FileTree} {names : List String} {target : String} :
    n.look names = some (.link target) ↔ n.at? names = some (.link target) := by
  rw [look]
  cases n.at? names with
  | none => simp
  | some m => cases m <;> simp [outside]

theorem look_cons (n : FileTree) (name : String) (names : List String) :
    n.look (name :: names) = (n.child? name).bind (·.look names) := by
  rw [look, at?]
  cases n.child? name <;> rfl

/-- a node is in a directory -/
theorem look_dir_of_isSome {n : FileTree} {dir : List String} {name : String}
    (h : (n.at? (dir ++ [name])).isSome) : n.look dir = some (.dir []) := by
  obtain ⟨m, hm⟩ := Option.isSome_iff_exists.mp h
  rw [at?_append] at hm
  obtain ⟨parent, hparent, hchild⟩ := Option.bind_eq_some_iff.mp hm
  cases parent with
  | dir es => exact look_eq_dir_iff.mpr ⟨es, hparent⟩
  | file content => cases hchild
  | link target => cases hchild

theorem look_dropLast {n : FileTree} {dir : List String} (h : n.look dir = some (.dir [])) :
    n.look dir.dropLast = some (.dir []) := by
  rcases dir.eq_nil_or_concat with rfl | ⟨front, name, rfl⟩
  · exact h
  · rw [List.concat_eq_append] at h ⊢
    rw [List.dropLast_concat]
    obtain ⟨es, hes⟩ := look_eq_dir_iff.mp h
    exact look_dir_of_isSome (Option.isSome_iff_exists.mpr ⟨_, hes⟩)

theorem look_nil_of_dir {n : FileTree} {dir : List String} (h : n.look dir = some (.dir [])) :
    n.look [] = some (.dir []) := by
  cases dir with
  | nil => exact h
  | cons name dir =>
    rw [look_cons] at h
    cases n with
    | dir es => rfl
    | file content => cases h
    | link target => cases h

/-! ### growing -/

/-- only in one place something looks different, where nothing or a file was -/
theorem keepsWays_of_look_eq {n m : FileTree} {new : List String}
    (hothers : ∀ names, names ≠ new → m.look names = n.look names)
    (hold : n.look new = none ∨ ∃ content, n.at? new = some (.file content)) : KeepsWays n m := by
  have hkeep {names : List String} {k : FileTree} (hfile : ∀ content, k ≠ .file content)
      (hlook : n.look names = some k) : m.look names = some k := by
    have hne : names ≠ new := by
      rintro rfl
      rcases hold with hnone | ⟨content, hat⟩
      · rw [hnone] at hlook
        cases hlook
      · rw [look_eq_file_iff.mpr hat] at hlook
        exact hfile content (Option.some.inj hlook).symm
    rw [hothers names hne, hlook]
  exact ⟨fun _ => hkeep (by simp), fun _ _ => hkeep (by simp)⟩

namespace Grows

theorem refl (n : FileTree) : Grows n n := fun _ => .inl rfl

theorem trans {n m k : FileTree} (h : Grows n m) (h' : Grows m k) : Grows n k := by
  intro names
  rcases h names with heq | ⟨hnone, hdir⟩ <;> rcases h' names with heq' | ⟨hnone', hdir'⟩
  · exact .inl (heq'.trans heq)
  · exact .inr ⟨heq.symm.trans hnone', hdir'⟩
  · exact .inr ⟨hnone, heq'.trans hdir⟩
  · exact .inr ⟨hnone, hdir'⟩

/-- what was there is still there -/
theorem look_eq {n m : FileTree} (h : Grows n m) {names : List String} {k : FileTree}
    (hk : n.look names = some k) : m.look names = some k := by
  rcases h names with heq | ⟨hnone, -⟩
  · exact heq.trans hk
  · rw [hnone] at hk
    cases hk

theorem keepsWays {n m : FileTree} (h : Grows n m) : KeepsWays n m :=
  ⟨fun _ => h.look_eq, fun _ _ => h.look_eq⟩

theorem look_eq_none {n m : FileTree} (h : Grows n m) {names : List String}
    (hm : m.look names = none) : n.look names = none := by
  rcases h names with heq | ⟨hnone, -⟩
  · exact heq.symm.trans hm
  · exact hnone

theorem at?_eq_file {n m : FileTree} (h : Grows n m) {names : List String}
    {content : Text.Bytes} (hm : m.at? names = some (.file content)) :
    n.at? names = some (.file content) := by
  rw [← look_eq_file_iff] at hm ⊢
  rcases h names with heq | ⟨-, hdir⟩
  · exact heq.symm.trans hm
  · rw [hdir] at hm
    cases hm

end Grows

/-! ### one node more -/

theorem lookup_setEntry_self {name : String} {f : Option FileTree → Option FileTree}
    {es : List (String × FileTree)} {n : FileTree} (h : f (es.lookup name) = some n) :
    (setEntry name f es).lookup name = some n := by
  induction es with
  | nil =>
    rw [List.lookup_nil] at h
    rw [setEntry, h]
    simp
  | cons e es ih =>
    obtain ⟨k, m⟩ := e
    rw [setEntry]
    by_cases hk : k = name
    · subst hk
      rw [List.lookup_cons_self] at h
      rw [if_pos rfl, h]
      simp
    · have hne : (name == k) = false := beq_false_of_ne (Ne.symm hk)
      rw [List.lookup_cons, hne] at h
      rw [if_neg hk, List.lookup_cons, hne]
      exact ih h

theorem lookup_setEntry_of_ne {name k : String} (hk : k ≠ name)
    (f : Option FileTree → Option FileTree) (es : List (String × FileTree)) :
    (setEntry name f es).lookup k = es.lookup k := by
  have hne : (k == name) = false := beq_false_of_ne hk
  induction es with
  | nil =>
    rw [setEntry]
    cases f none with
    | none => rfl
    | some n => simp [List.lookup_cons, hne]
  | cons e es ih =>
    obtain ⟨j, m⟩ := e
    rw [setEntry]
    by_cases hj : j = name
    · subst hj
      rw [if_pos rfl, List.lookup_cons, hne]
      cases f (some m) with
      | none => rfl
      | some n => simp [List.lookup_cons, hne]
    · rw [if_neg hj, List.lookup_cons, List.lookup_cons, ih]

theorem insert_one (es : List (String × FileTree)) (name : String) (new : FileTree) :
    (FileTree.dir es).insert [name] new = .dir (setEntry name (fun _ => some new) es) := rfl

/-- below a node that is there -/
theorem insert_cons {es : List (String × FileTree)} {name : String} {n : FileTree}
    (hn : es.lookup name = some n) {path : List String} (hpath : path ≠ []) (new : FileTree) :
    ∃ es', (FileTree.dir es).insert (name :: path) new = .dir es' ∧
      es'.lookup name = some (n.insert path new) ∧
      ∀ k, k ≠ name → es'.lookup k = es.lookup k := by
  obtain ⟨p, path, rfl⟩ := List.exists_cons_of_ne_nil hpath
  refine ⟨_, rfl, lookup_setEntry_self ?_, fun k hk => lookup_setEntry_of_ne hk _ es⟩
  rw [hn]
  rfl

/-- the node that is put into a directory stands there, with all that is in it -/
theorem at?_insert {n : FileTree} {dir : List String} (hdir : n.look dir = some (.dir []))
    (name : String) (new : FileTree) (below : List String) :
    (n.insert (dir ++ [name]) new).at? (dir ++ name :: below) = new.at? below := by
  induction dir generalizing n with
  | nil =>
    obtain ⟨es, hes⟩ := look_eq_dir_iff.mp hdir
    cases hes
    rw [List.nil_append, List.nil_append, insert_one, at?, child?, lookup_setEntry_self rfl]
    rfl
  | cons k dir ih =>
    obtain ⟨child, hchild, hlook⟩ := Option.bind_eq_some_iff.mp (look_cons n k dir ▸ hdir)
    cases n with
    | dir es =>
      obtain ⟨es', hinsert, hself, -⟩ := insert_cons hchild (List.concat_ne_nil name dir) new
      rw [List.cons_append, List.cons_append, hinsert, at?, child?, hself]
      exact ih hlook
    | file content => cases hchild
    | link target => cases hchild

/-- where the new node does not stand, nothing looks different -/
theorem look_insert {n : FileTree} {dir : List String} (hdir : n.look dir = some (.dir []))
    {name : String} (new : FileTree) {names : List String} (hnames : ¬ dir ++ [name] <+: names) :
    (n.insert (dir ++ [name]) new).look names = n.look names := by
  induction dir generalizing n names with
  | nil =>
    obtain ⟨es, hes⟩ := look_eq_dir_iff.mp hdir
    cases hes
    rw [List.nil_append, insert_one]
    cases names with
    | nil => rfl
    | cons k names =>
      have hk : k ≠ name := fun hk => hnames ⟨names, by rw [hk]; rfl⟩
      rw [look_cons, look_cons, child?, child?, lookup_setEntry_of_ne hk]
  | cons j dir ih =>
    obtain ⟨child, hchild, hlook⟩ := Option.bind_eq_some_iff.mp (look_cons n j dir ▸ hdir)
    cases n with
    | dir es =>
      obtain ⟨es', hinsert, hself, hothers⟩ :=
        insert_cons hchild (List.concat_ne_nil name dir) new
      rw [List.cons_append, hinsert]
      cases names with
      | nil => rfl
      | cons k names =>
        rw [look_cons, look_cons, child?, child?]
        by_cases hk : k = j
        · subst hk
          have hbelow : ¬ dir ++ [name] <+: names := fun h =>
            hnames (List.cons_prefix_cons.mpr ⟨rfl, h⟩)
          have hchild : es.lookup k = some child := hchild
          rw [hself, hchild]
          exact ih hlook hbelow
        · rw [hothers k hk]
    | file content => cases hchild
    | link target => cases hchild

/-- nothing stands below a file or below an empty directory -/
def IsEmpty (n : FileTree) : Prop := ∀ name, n.child? name = none

theorem isEmpty_file (content : Text.Bytes) : IsEmpty (.file content) := fun _ => rfl

theorem isEmpty_dir : IsEmpty (.dir []) := fun _ => rfl

theorem IsEmpty.at? {n : FileTree} (h : n.IsEmpty) (name : String) (names : List String) :
    n.at? (name :: names) = none := by
  rw [FileTree.at?, h name]
  rfl

/-- A node without others in it, in a place where there was none or such a one, is all that looks
different. -/
theorem look_insert_of_ne {n : FileTree} {dir : List String} (hdir : n.look dir = some (.dir []))
    {name : String} (hold : ∀ m ∈ n.at? (dir ++ [name]), m.IsEmpty) {new : FileTree}
    (hnew : new.IsEmpty) {names : List String} (hnames : names ≠ dir ++ [name]) :
    (n.insert (dir ++ [name]) new).look names = n.look names := by
  by_cases hpre : dir ++ [name] <+: names
  · obtain ⟨below, rfl⟩ := hpre
    cases below with
    | nil => exact absurd (List.append_nil _) hnames
    | cons k below =>
      have hnone : n.at? (dir ++ [name] ++ k :: below) = none := by
        rw [at?_append]
        cases h : n.at? (dir ++ [name]) with
        | none => rfl
        | some m => exact (hold m h).at? k below
      rw [look, look, hnone, List.append_assoc, List.singleton_append, at?_insert hdir,
        hnew.at?]
  · exact look_insert hdir new hpre

/-- an empty directory more -/
theorem look_insert_dir {n : FileTree} {dir : List String} (hdir : n.look dir = some (.dir []))
    {name : String} (habsent : n.at? (dir ++ [name]) = none) {names : List String}
    (hnames : names ≠ dir ++ [name]) :
    (n.insert (dir ++ [name]) (.dir [])).look names = n.look names := by
  refine look_insert_of_ne hdir (fun m hm => ?_) isEmpty_dir hnames
  rw [habsent] at hm
  cases hm

theorem grows_insert {n : FileTree} {dir : List String} (hdir : n.look dir = some (.dir []))
    {name : String} (habsent : n.at? (dir ++ [name]) = none) :
    Grows n (n.insert (dir ++ [name]) (.dir [])) := by
  intro names
  by_cases hnames : names = dir ++ [name]
  · subst hnames
    refine .inr ⟨look_eq_none_iff.mpr habsent, ?_⟩
    rw [look, at?_insert hdir]
    rfl
  · exact .inl (look_insert_dir hdir habsent hnames)

end VersionFloor.FileTree
