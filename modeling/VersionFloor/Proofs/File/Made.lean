import VersionFloor.Proofs.File.Disk

/-!
# Files: which directories are made

A directory that is there has those above it (`exists_dirAt_parent`), so that nothing is made on the
way to it (`makeDirs_of_dirAt`).  All that making the directories of a path brings to a disk is
directories to which the path, or the first of its steps, lead (`Makes.growsAlong`), and it brings
none where none can be made at once (`Makes.eq_or_canMake`).
-/

namespace VersionFloor.Disk

open FileTree

/-! ### paths with a step less -/

theorem pieceBytes_append (xs ys : List String) :
    pieceBytes (xs ++ ys) = pieceBytes xs + pieceBytes ys := by
  induction xs with
  | nil => simp [pieceBytes]
  | cons x xs ih =>
    have hcons (s : String) (ss : List String) :
        pieceBytes (s :: ss) = s.utf8ByteSize + 1 + pieceBytes ss := rfl
    rw [List.cons_append, hcons, hcons, ih, ← Nat.add_assoc]

theorem Passable.of_append {front back : List String} (h : Passable (front ++ back))
    (hne : ¬ (front = [] ∨ front = [""])) : Passable front := by
  obtain ⟨hzero, -, hlimit⟩ := h
  refine ⟨fun hany => hzero ?_, hne, fun hlong => hlimit ?_⟩
  · rw [List.any_append, hany, Bool.true_or]
  · rw [pieceBytes_append]
    exact Nat.lt_of_lt_of_le hlong (Nat.le_add_right _ _)

theorem piecesOf_ne (steps : List Path.Step) : piecesOf steps ≠ [""] := by
  rw [piecesOf]
  split
  · decide
  · assumption

/-- the path of the directory above is no longer, though the root alone has two pieces -/
theorem passable_parent {s first : Path.Step} {parent : List Path.Step}
    (h : Passable (piecesOf (s :: first :: parent))) : Passable (piecesOf (first :: parent)) := by
  rcases piecesOf_cases (first :: parent) with hsame | ⟨-, hroot⟩
  · rw [hsame]
    rcases piecesOf_cases (s :: first :: parent) with hlong | ⟨hone, -⟩
    · rw [hlong, stepPieces_cons] at h
      exact h.of_append (not_or.mpr ⟨by simp [stepPieces_cons], hsame ▸ piecesOf_ne _⟩)
    · have hlength := congrArg List.length hone
      simp [stepPieces_cons] at hlength
  · rw [hroot]
    exact ⟨by decide, by decide, by decide⟩

theorem start_append_of_ne (d : Disk) {front : List String} (h : front ≠ []) (back : List String) :
    d.start (front ++ back) = d.start front := by
  cases front with
  | nil => exact absurd rfl h
  | cons piece front => rfl

/-! ### directories above a directory -/

theorem passable_of_dirAt {d : Disk} {s : Path.Step} {parent : List Path.Step} {dir : List String}
    (h : d.dirAt (s :: parent) = .ok dir) : Passable (piecesOf (s :: parent)) := by
  rw [dirAt_cons] at h
  cases hplace : d.locatePieces .lookup (piecesOf (s :: parent)) with
  | error e =>
    rw [hplace] at h
    cases h
  | ok place => exact (locatePieces_eq_ok (by decide) hplace).1

theorem dirAt_of_leads {d : Disk} (hd : d.Stands) {steps : List Path.Step} {dir : List String}
    (h : d.Leads steps dir) (hpassable : Passable (piecesOf steps)) : d.dirAt steps = .ok dir := by
  obtain ⟨left, henters⟩ := h
  have hlook : d.root.look dir = some (.dir []) := henters.look (hd.look_start _)
  obtain ⟨es, hes⟩ := look_eq_dir_iff.mp hlook
  cases steps with
  | nil => exact absurd (.inl rfl) hpassable.2.1
  | cons s parent =>
    rw [dirAt_cons, locatePieces_of_passable hpassable, start_piecesOf,
      henters.follow (solid_piecesOf _)]
    show dirOf d.root (.found dir) = .ok dir
    rw [dirOf, hes]

/-- a directory that is there has the directories above it -/
theorem exists_dirAt_parent {d : Disk} (hd : d.Stands) {s : Path.Step} {parent : List Path.Step}
    {dir : List String} (h : d.dirAt (s :: parent) = .ok dir) :
    ∃ above, d.dirAt parent = .ok above := by
  cases parent with
  | nil => exact ⟨d.cwd, rfl⟩
  | cons first parent =>
    obtain ⟨left, henters⟩ := (dirAt_eq_ok hd h).1
    rw [stepPieces_cons, solid_append] at henters
    obtain ⟨between, above, hfront, -⟩ := henters.exists_of_append
    rw [start_append_of_ne d (by simp [stepPieces_cons])] at hfront
    have hleads : d.Leads (first :: parent) above := ⟨between, hfront⟩
    exact ⟨above, dirAt_of_leads hd hleads (passable_parent (passable_of_dirAt h))⟩

theorem makeDir_of_dirAt {d : Disk} (hd : d.Stands) {s : Path.Step} {parent : List Path.Step}
    (hs : ∀ name, s = .name name → IsPlain name)
    {dir : List String} (h : d.dirAt (s :: parent) = .ok dir) :
    d.makeDir (s :: parent) = .error .exists ∨ d.makeDir (s :: parent) = .error .nameTooLong := by
  obtain ⟨above, habove⟩ := exists_dirAt_parent hd h
  cases s with
  | name s =>
    have hsome := (dirAt_eq_ok hd habove).1.isSome_of_dirAt hd (hs s rfl) h
    simp only [makeDir, habove, bind, Except.bind, hsome, if_true]
    split
    · exact .inr rfl
    · split
      · exact .inr rfl
      · exact .inl rfl
  | _ => exact .inl (makeDir_of_not_name (by simp) habove)

/-- where all directories are there, none is made -/
theorem makeDirs_of_dirAt {d : Disk} (hd : d.Stands) {steps : List Path.Step}
    (hplain : ∀ s, .name s ∈ steps → IsPlain s) {dir : List String} (h : d.dirAt steps = .ok dir) :
    d.makeDirs steps = (d, none) := by
  cases steps with
  | nil => rfl
  | cons s parent =>
    have hs (name : String) (hname : s = .name name) : IsPlain name :=
      hplain name (hname ▸ List.mem_cons_self)
    have hok : (d.dirAt (s :: parent)).isOk = true := by
      rw [h]
      rfl
    rcases makeDir_of_dirAt hd hs h with hmake | hmake <;> rw [makeDirs, hmake, hok] <;> rfl

/-! ### which directories are made -/

/-- all that is new are directories to which the steps, or the first of them, lead -/
def GrowsAlong (d d' : Disk) (steps : List Path.Step) : Prop :=
  ∀ names, d'.root.look names = d.root.look names ∨
    d.root.look names = none ∧ d'.root.look names = some (.dir []) ∧
      ∃ above, above <:+ steps ∧ d'.Leads above names

theorem GrowsAlong.refl (d : Disk) (steps : List Path.Step) : d.GrowsAlong d steps :=
  fun _ => .inl rfl

theorem GrowsAlong.mono {d d' : Disk} {steps more : List Path.Step} (h : d.GrowsAlong d' steps)
    (hsuffix : steps <:+ more) : d.GrowsAlong d' more := fun names =>
  (h names).imp_right fun ⟨hnone, hnew, above, habove, hleads⟩ =>
    ⟨hnone, hnew, above, habove.trans hsuffix, hleads⟩

theorem GrowsAlong.trans {d d' d'' : Disk} {steps : List Path.Step} (h : d.GrowsAlong d' steps)
    (hgrows : d'.GrowsTo d'') (h' : d'.GrowsAlong d'' steps) : d.GrowsAlong d'' steps := by
  intro names
  rcases h names with hsame | ⟨hnone, hnew, above, habove, hleads⟩
  · rw [← hsame]
    exact h' names
  · exact .inr ⟨hnone, hgrows.root.look_eq hnew, above, habove,
      hleads.mono hgrows.cwd hgrows.root.keepsWays⟩

theorem makeDir_growsAlong {d d' : Disk} (hd : d.Stands) {steps : List Path.Step}
    (hplain : ∀ s, .name s ∈ steps → IsPlain s) (h : d.makeDir steps = .ok d') :
    d.GrowsAlong d' steps := by
  obtain ⟨new, hleads, hnone, hnew, hothers⟩ := makeDir_spec hd hplain h
  intro names
  by_cases hnames : names = new
  · subst hnames
    exact .inr ⟨hnone, look_eq_dir_iff.mpr ⟨[], hnew⟩, steps, List.suffix_refl steps, hleads⟩
  · exact .inl (hothers names hnames)

theorem Makes.growsAlong {d d' : Disk} (hd : d.Stands) {steps : List Path.Step}
    (hplain : ∀ s, .name s ∈ steps → IsPlain s) {e : Option FileError} (h : Makes d steps d' e) :
    d.GrowsAlong d' steps := by
  have hparent {s : Path.Step} {parent : List Path.Step}
      (hplain : ∀ n, .name n ∈ s :: parent → IsPlain n) : ∀ n, .name n ∈ parent → IsPlain n :=
    fun n hn => hplain n (List.mem_cons_of_mem _ hn)
  induction h with
  | nothing => exact .refl d _
  | made hmade => exact makeDir_growsAlong hd hplain hmade
  | kept => exact .refl d _
  | failed _ ih => exact (ih (hparent hplain)).mono (List.suffix_cons _ _)
  | within hmakes hmade ih =>
    have hstands := (hmakes.grows hd).stands hd
    exact ((ih (hparent hplain)).mono (List.suffix_cons _ _)).trans (makeDir_grows hstands hmade)
      (makeDir_growsAlong hstands hplain hmade)
  | stopped _ _ _ ih => exact (ih (hparent hplain)).mono (List.suffix_cons _ _)

/-- on the way there is a directory that can be made at once -/
def CanMake (d : Disk) (steps : List Path.Step) : Prop :=
  ∃ above, above <:+ steps ∧ (d.makeDir above).isOk = true

theorem CanMake.mono {d : Disk} {steps more : List Path.Step} (h : d.CanMake steps)
    (hsuffix : steps <:+ more) : d.CanMake more := by
  obtain ⟨above, habove, hok⟩ := h
  exact ⟨above, habove.trans hsuffix, hok⟩

theorem canMake_of_makeDir {d d' : Disk} {steps : List Path.Step}
    (h : d.makeDir steps = .ok d') : d.CanMake steps :=
  ⟨steps, List.suffix_refl steps, by rw [h]; rfl⟩

theorem Makes.eq_or_canMake {d d' : Disk} {steps : List Path.Step} {e : Option FileError}
    (h : Makes d steps d' e) : d' = d ∨ d.CanMake steps := by
  induction h with
  | nothing => exact .inl rfl
  | made hmade => exact .inr (canMake_of_makeDir hmade)
  | kept => exact .inl rfl
  | failed _ ih => exact ih.imp_right fun hcan => hcan.mono (List.suffix_cons _ _)
  | within _ hmade ih =>
    rcases ih with rfl | hcan
    · exact .inr (canMake_of_makeDir hmade)
    · exact .inr (hcan.mono (List.suffix_cons _ _))
  | stopped _ _ _ ih => exact ih.imp_right fun hcan => hcan.mono (List.suffix_cons _ _)

end VersionFloor.Disk
