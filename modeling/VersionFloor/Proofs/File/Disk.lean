import VersionFloor.Proofs.File.Path

/-!
# Files: making directories and writing files

Directories that are made are all that comes to a disk (`Makes.grows`), and where one is made it is
the directory that the path leads to (`Makes.leads`).  A file that is written, be it in part, stands
where its path leads, and nothing else looks different (`WritesTo`, `write_spec`).
-/

namespace VersionFloor.Disk

open FileTree

/-- the working directory is there -/
def Stands (d : Disk) : Prop := d.root.look d.cwd = some (.dir [])

/-! ### paths -/

theorem Stands.look_start {d : Disk} (h : d.Stands) (pieces : List String) :
    d.root.look (d.start pieces) = some (.dir []) := by
  rw [start]
  split
  · exact look_nil_of_dir h
  · exact h

/-- a path begins in one directory, whether it is given by its pieces or by its steps -/
theorem start_pieces (d : Disk) {p : Path} (h : p.pieces ≠ [""]) :
    d.start p.pieces = d.start (p.steps.map stepPiece) := by
  have hhead : (p.steps.map stepPiece).head? = some "" ↔ p.steps.head? = some .root := by
    rw [List.head?_map]
    cases hsteps : p.steps with
    | nil => simp
    | cons s rest =>
      cases s with
      | name s =>
        have hs : .name s ∈ p.steps := hsteps ▸ List.mem_cons_self
        simp [stepPiece, (Path.isPlain_of_mem_steps hs).1]
      | _ => simp [stepPiece]
  rw [Path.head?_steps, ← Path.head?_pieces p h] at hhead
  rw [start, start]
  simp only [hhead]

/-- a path that can be looked for at all -/
def Passable (pieces : List String) : Prop :=
  ¬ (pieces.any (·.toList.contains '\x00')) ∧ ¬ (pieces = [] ∨ pieces = [""]) ∧
    ¬ pathLimit < pieceBytes pieces

theorem locatePieces_of_passable {pieces : List String} (h : Passable pieces) (d : Disk)
    (aim : Aim) :
    d.locatePieces aim pieces = follow d.root aim linkLimit (d.start pieces) pieces := by
  rw [locatePieces, if_neg h.1, if_neg h.2.1, if_neg fun hlong => h.2.2 hlong.2]

theorem locatePieces_eq_ok {d : Disk} {aim : Aim} (haim : aim ≠ .spelling) {pieces : List String}
    {place : Place} (h : d.locatePieces aim pieces = .ok place) :
    Passable pieces ∧ follow d.root aim linkLimit (d.start pieces) pieces = .ok place := by
  have hpassable : Passable pieces := by
    rw [locatePieces] at h
    split at h
    · cases h
    · rename_i hzero
      split at h
      · cases h
      · rename_i hempty
        split at h
        · cases h
        · rename_i hlimit
          exact ⟨hzero, hempty, fun hlong => hlimit ⟨haim, hlong⟩⟩
  exact ⟨hpassable, locatePieces_of_passable hpassable d aim ▸ h⟩

/-! ### directories of a path -/

/-- the pieces of a path that is given by its steps, the last step first -/
def stepPieces (steps : List Path.Step) : List String := steps.reverse.map stepPiece

/-- the steps, the last one first, lead to this directory -/
def Leads (d : Disk) (steps : List Path.Step) (dir : List String) : Prop :=
  ∃ left, Enters d.root linkLimit (d.start (stepPieces steps)) (solid (stepPieces steps)) left dir

theorem Leads.mono {d d' : Disk} {steps : List Path.Step} {dir : List String}
    (h : d.Leads steps dir) (hcwd : d'.cwd = d.cwd) (hways : d.root.KeepsWays d'.root) :
    d'.Leads steps dir := by
  obtain ⟨left, henters⟩ := h
  have hstart (pieces : List String) : d'.start pieces = d.start pieces := by
    rw [start, start, hcwd]
  refine ⟨left, ?_⟩
  rw [hstart]
  exact henters.mono hways

theorem piecesOf_cases (steps : List Path.Step) :
    piecesOf steps = stepPieces steps ∨
      stepPieces steps = [""] ∧ piecesOf steps = ["", ""] := by
  rw [piecesOf, stepPieces]
  split
  · rename_i h
    exact .inr ⟨h, rfl⟩
  · exact .inl rfl

theorem solid_piecesOf (steps : List Path.Step) :
    solid (piecesOf steps) = solid (stepPieces steps) := by
  rcases piecesOf_cases steps with h | ⟨h, h'⟩
  · rw [h]
  · rw [h, h']
    rfl

theorem start_piecesOf (d : Disk) (steps : List Path.Step) :
    d.start (piecesOf steps) = d.start (stepPieces steps) := by
  rcases piecesOf_cases steps with h | ⟨h, h'⟩
  · rw [h]
  · rw [h, h']
    rfl

/-- the directory at a place -/
def dirOf (root : FileTree) : Place → Except FileError (List String)
  | .absent _ _ => .error .notFound
  | .found names =>
    match root.at? names with
    | some (.dir _) => .ok names
    | _ => .error .notDirectory

theorem dirOf_eq_ok {root : FileTree} {place : Place} {names : List String}
    (h : dirOf root place = .ok names) :
    place = .found names ∧ root.look names = some (.dir []) := by
  cases place with
  | absent parent name => cases h
  | found names' =>
    rw [dirOf] at h
    split at h
    · rename_i es hes
      cases h
      exact ⟨rfl, look_eq_dir_iff.mpr ⟨es, hes⟩⟩
    · cases h

theorem dirAt_cons (d : Disk) (s : Path.Step) (parent : List Path.Step) :
    d.dirAt (s :: parent) =
      (d.locatePieces .lookup (piecesOf (s :: parent))).bind (dirOf d.root) := rfl

/-- a directory that is found by its steps -/
theorem dirAt_eq_ok {d : Disk} {steps : List Path.Step} {dir : List String} (hd : d.Stands)
    (h : d.dirAt steps = .ok dir) :
    d.Leads steps dir ∧ d.root.look dir = some (.dir []) := by
  cases steps with
  | nil =>
    cases h
    exact ⟨⟨linkLimit, .nil⟩, hd⟩
  | cons s parent =>
    rw [dirAt_cons] at h
    cases hplace : d.locatePieces .lookup (piecesOf (s :: parent)) with
    | error e =>
      rw [hplace] at h
      cases h
    | ok place =>
      rw [hplace] at h
      obtain ⟨rfl, hlook⟩ := dirOf_eq_ok h
      have hreaches := reaches_of_follow (locatePieces_eq_ok (by decide) hplace).2
      obtain ⟨left, henters⟩ := hreaches.enters hlook
      rw [solid_piecesOf, start_piecesOf] at henters
      exact ⟨⟨left, henters⟩, hlook⟩

/-- two directories that the same steps lead to -/
theorem Leads.unique {d : Disk} {steps : List Path.Step} {dir dir' : List String}
    (h : d.Leads steps dir) (h' : d.Leads steps dir') : dir = dir' := by
  obtain ⟨_, henters⟩ := h
  obtain ⟨_, henters'⟩ := h'
  have hfollow := (henters.follow rfl).symm.trans (henters'.follow rfl)
  cases hfollow
  rfl

theorem stepPieces_cons (s : Path.Step) (parent : List Path.Step) :
    stepPieces (s :: parent) = stepPieces parent ++ [stepPiece s] := by
  rw [stepPieces, List.reverse_cons, List.map_append]
  rfl

theorem stepPieces_name (s : String) (parent : List Path.Step) :
    stepPieces (.name s :: parent) = stepPieces parent ++ [s] := stepPieces_cons _ parent

theorem start_append {s : String} (hs : IsPlain s) (d : Disk) (pieces : List String) :
    d.start (pieces ++ [s]) = d.start pieces := by
  cases pieces with
  | nil =>
    have hne : some s ≠ some "" := fun h => hs.1 (Option.some.inj h)
    rw [start, start, List.nil_append, List.head?_cons, if_neg hne, if_neg (by simp)]
  | cons piece pieces => rfl

theorem solid_of_isPlain {s : String} (hs : IsPlain s) : solid [s] = [s] :=
  solid_cons hs.not_blank []

/-- a step into a directory that is there -/
theorem Leads.name {d : Disk} {parent : List Path.Step} {dir : List String}
    (h : d.Leads parent dir) {s : String} (hs : IsPlain s) (hsize : s.utf8ByteSize ≤ nameLimit)
    (hdir : d.root.look (dir ++ [s]) = some (.dir [])) :
    d.Leads (.name s :: parent) (dir ++ [s]) := by
  obtain ⟨left, henters⟩ := h
  refine ⟨left, ?_⟩
  rw [stepPieces_name, start_append hs, solid_append, solid_of_isPlain hs]
  exact henters.append (.dir hs hsize hdir .nil)

theorem isSome_of_reaches_name {root : FileTree} {links : Nat} {dir rest names : List String}
    {s : String} (hs : IsPlain s) (h : Reaches root links dir (s :: rest) (.found names)) :
    (root.at? (dir ++ [s])).isSome = true := by
  cases h with
  | blank hblank => exact absurd hblank hs.not_blank
  | up => exact absurd rfl hs.2.2
  | dir _ _ hlook =>
    obtain ⟨es, hes⟩ := look_eq_dir_iff.mp hlook
    exact Option.isSome_iff_exists.mpr ⟨_, hes⟩
  | link _ _ hlook => exact Option.isSome_iff_exists.mpr ⟨_, look_eq_link_iff.mp hlook⟩
  | file _ _ hat => exact Option.isSome_iff_exists.mpr ⟨_, hat⟩

/-- a path to a name behind a directory leads to what is in the directory, if it leads anywhere -/
theorem Leads.isSome_of_follow {d : Disk} {parent : List Path.Step} {dir : List String}
    (h : d.Leads parent dir) {s : String} (hs : IsPlain s) {pieces : List String}
    (hstart : d.start pieces = d.start (stepPieces parent))
    (hsolid : solid pieces = solid (stepPieces parent) ++ [s]) {names : List String}
    (hfollow : follow d.root .lookup linkLimit (d.start pieces) pieces = .ok (.found names)) :
    (d.root.at? (dir ++ [s])).isSome = true := by
  obtain ⟨left, henters⟩ := h
  obtain ⟨front, back, rfl, hfront, hback⟩ := List.filter_eq_append_iff.mp hsolid
  obtain ⟨blanks, more, rfl, hblanks, -⟩ := exists_of_solid_eq_cons hback
  have hfront' : solid (front ++ blanks) = solid (stepPieces parent) := by
    rw [solid_append, solid_eq_nil_iff.mpr hblanks, List.append_nil]
    exact hfront
  rw [hstart, ← List.append_assoc, henters.follow_append hfront' (goesOn_lookup _)] at hfollow
  exact isSome_of_reaches_name hs (reaches_of_follow hfollow)

/-- where a directory is found behind another one, there is something of its name -/
theorem Leads.isSome_of_dirAt {d : Disk} (hd : d.Stands) {parent : List Path.Step}
    {dir : List String} (h : d.Leads parent dir) {s : String} (hs : IsPlain s) {names : List String}
    (hnames : d.dirAt (.name s :: parent) = .ok names) :
    (d.root.at? (dir ++ [s])).isSome = true := by
  obtain ⟨_, henters⟩ := (dirAt_eq_ok hd hnames).1
  exact h.isSome_of_follow hs (stepPieces_name s parent ▸ start_append hs d _)
    (by rw [stepPieces_name, solid_append, solid_of_isPlain hs]) (henters.follow rfl)

/-! ### making directories -/

/-- where the last step is a name, a directory of that name comes to the one before it -/
theorem makeDir_eq_ok {d d' : Disk} {steps : List Path.Step} (h : d.makeDir steps = .ok d') :
    ∃ s parent dir, steps = .name s :: parent ∧ d.dirAt parent = .ok dir ∧
      s.utf8ByteSize ≤ nameLimit ∧ d.root.at? (dir ++ [s]) = none ∧
      d.faults.making (dir ++ [s]) = none ∧
      d' = { d with root := d.root.insert (dir ++ [s]) (.dir []) } := by
  cases steps with
  | nil => cases h
  | cons step parent =>
    cases hparent : d.dirAt parent with
    | error e =>
      cases step <;> simp [makeDir, hparent, bind, Except.bind] at h
    | ok dir =>
      cases step with
      | name s =>
        simp only [makeDir, hparent, bind, Except.bind] at h
        split at h
        · cases h
        · split at h
          · cases h
          · rename_i hsize
            split at h
            · cases h
            · rename_i habsent
              split at h
              · cases h
              · rename_i hmaking
                cases h
                refine ⟨s, parent, dir, rfl, hparent, Nat.not_lt.mp hsize, ?_, hmaking, rfl⟩
                exact Option.not_isSome_iff_eq_none.mp habsent
      | _ => simp [makeDir, hparent, bind, Except.bind] at h

theorem makeDir_of_not_name {d : Disk} {step : Path.Step} (hstep : ∀ s, step ≠ .name s)
    {parent : List Path.Step} {dir : List String} (h : d.dirAt parent = .ok dir) :
    d.makeDir (step :: parent) = .error .exists := by
  cases step with
  | name s => exact absurd rfl (hstep s)
  | _ => simp [makeDir, h, bind, Except.bind]

/-- What becomes of a disk on which the directories of a path are made, and the fault if there is
one. -/
inductive Makes (d : Disk) : List Path.Step → Disk → Option FileError → Prop
  | nothing : Makes d [] d none
  | made {steps : List Path.Step} {d' : Disk} : d.makeDir steps = .ok d' → Makes d steps d' none
  | kept {steps : List Path.Step} {e : FileError} : d.makeDir steps = .error e →
      Makes d steps d (if (d.dirAt steps).isOk then none else some e)
  /-- one above could not be made -/
  | failed {s : Path.Step} {parent : List Path.Step} {d' : Disk} {e : FileError} :
      Makes d parent d' (some e) → Makes d (s :: parent) d' (some e)
  /-- the one above was missing and was made first -/
  | within {s : Path.Step} {parent : List Path.Step} {d' d'' : Disk} : Makes d parent d' none →
      d'.makeDir (s :: parent) = .ok d'' → Makes d (s :: parent) d'' none
  /-- there is no fault where the path leads to a directory by now -/
  | stopped {s : Path.Step} {parent : List Path.Step} {d' : Disk} {e : FileError} :
      d.makeDir (s :: parent) = .error .notFound → Makes d parent d' none →
        d'.makeDir (s :: parent) = .error e →
          Makes d (s :: parent) d' (if (d'.dirAt (s :: parent)).isOk then none else some e)

theorem makes_makeDirs (d : Disk) (steps : List Path.Step) :
    Makes d steps (d.makeDirs steps).1 (d.makeDirs steps).2 := by
  induction steps with
  | nil => exact .nothing
  | cons s parent ih =>
    rw [makeDirs]
    split
    · rename_i d' hmade
      exact .made hmade
    · rename_i hnotFound
      split
      · rename_i d' e hparent
        rw [hparent] at ih
        exact .failed ih
      · rename_i d' hparent
        rw [hparent] at ih
        split
        · rename_i d'' hmade
          exact .within ih hmade
        · rename_i e hstopped
          exact .stopped hnotFound ih hstopped
    · rename_i e _ hkept
      exact .kept hkept

/-! ### what comes to the disk -/

/-- the working directory stays, and nothing but new directories comes to the tree -/
structure GrowsTo (d d' : Disk) : Prop where
  cwd : d'.cwd = d.cwd
  faults : d'.faults = d.faults
  root : d.root.Grows d'.root

theorem GrowsTo.refl (d : Disk) : d.GrowsTo d := ⟨rfl, rfl, .refl d.root⟩

theorem GrowsTo.trans {d d' d'' : Disk} (h : d.GrowsTo d') (h' : d'.GrowsTo d'') :
    d.GrowsTo d'' := ⟨h'.cwd.trans h.cwd, h'.faults.trans h.faults, h.root.trans h'.root⟩

theorem GrowsTo.stands {d d' : Disk} (h : d.GrowsTo d') (hd : d.Stands) : d'.Stands := by
  rw [Stands, h.cwd]
  exact h.root.look_eq hd

theorem makeDir_grows {d d' : Disk} (hd : d.Stands) {steps : List Path.Step}
    (h : d.makeDir steps = .ok d') : d.GrowsTo d' := by
  obtain ⟨s, parent, dir, -, hparent, -, habsent, -, rfl⟩ := makeDir_eq_ok h
  exact ⟨rfl, rfl, grows_insert (dirAt_eq_ok hd hparent).2 habsent⟩

/-- **Making directories changes nothing that is there.** -/
theorem Makes.grows {d d' : Disk} (hd : d.Stands) {steps : List Path.Step} {e : Option FileError}
    (h : Makes d steps d' e) : d.GrowsTo d' := by
  induction h with
  | nothing => exact .refl d
  | made hmade => exact makeDir_grows hd hmade
  | kept => exact .refl d
  | failed _ ih => exact ih
  | within _ hmade ih => exact ih.trans (makeDir_grows (ih.stands hd) hmade)
  | stopped _ _ _ ih => exact ih

/-- the steps lead to a directory that was not there before, and nothing is in it -/
def LeadsToNew (d d' : Disk) (steps : List Path.Step) : Prop :=
  ∃ dir, d'.Leads steps dir ∧ d.root.look dir = none ∧ d'.root.at? dir = some (.dir [])

/-- the steps lead to a new directory, and all else looks the same -/
theorem makeDir_spec {d d' : Disk} (hd : d.Stands) {steps : List Path.Step}
    (hplain : ∀ s, .name s ∈ steps → IsPlain s) (h : d.makeDir steps = .ok d') :
    ∃ new, d'.Leads steps new ∧ d.root.look new = none ∧ d'.root.at? new = some (.dir []) ∧
      ∀ names, names ≠ new → d'.root.look names = d.root.look names := by
  have hgrows := makeDir_grows hd h
  obtain ⟨s, parent, dir, rfl, hparent, hsize, habsent, -, rfl⟩ := makeDir_eq_ok h
  obtain ⟨hleads, hdir⟩ := dirAt_eq_ok hd hparent
  have hnew : (d.root.insert (dir ++ [s]) (.dir [])).at? (dir ++ [s]) = some (.dir []) :=
    at?_insert hdir s (.dir []) []
  refine ⟨dir ++ [s], ?_, look_eq_none_iff.mpr habsent, hnew,
    fun names => look_insert_dir hdir habsent⟩
  exact (hleads.mono hgrows.cwd hgrows.root.keepsWays).name (hplain s List.mem_cons_self) hsize
    (look_eq_dir_iff.mpr ⟨[], hnew⟩)

theorem makeDir_leads {d d' : Disk} (hd : d.Stands) {steps : List Path.Step}
    (hplain : ∀ s, .name s ∈ steps → IsPlain s) (h : d.makeDir steps = .ok d') :
    d.LeadsToNew d' steps := by
  obtain ⟨new, hleads, hnone, hnew, -⟩ := makeDir_spec hd hplain h
  exact ⟨new, hleads, hnone, hnew⟩

/-- Every step that is not to a name comes behind a directory that is there. -/
def GoesUpFromDirs (d : Disk) (steps : List Path.Step) : Prop :=
  ∀ s parent, s :: parent <:+ steps → (∀ name, s ≠ .name name) → ∃ dir, d.dirAt parent = .ok dir

/-- **When directories have been made, the path leads to the last of them.** -/
theorem Makes.leads {d d' : Disk} (hd : d.Stands) {steps : List Path.Step}
    (hplain : ∀ s, .name s ∈ steps → IsPlain s) (hup : d.GoesUpFromDirs steps)
    {e : Option FileError} (h : Makes d steps d' e) (he : e = none) :
    d' = d ∨ d.LeadsToNew d' steps := by
  induction h with
  | nothing => exact .inl rfl
  | made hmade => exact .inr (makeDir_leads hd hplain hmade)
  | kept => exact .inl rfl
  | failed => cases he
  | @within s parent d' d'' hparent hmade _ =>
    have hgrows := hparent.grows hd
    obtain ⟨dir, hleads, hnone, hempty⟩ := makeDir_leads (hgrows.stands hd) hplain hmade
    exact .inr ⟨dir, hleads, hgrows.root.look_eq_none hnone, hempty⟩
  | @stopped s parent d' e hnotFound hparent _ ih =>
    have hplain' : ∀ s, .name s ∈ parent → IsPlain s := fun s hs =>
      hplain s (List.mem_cons_of_mem _ hs)
    have hup' : d.GoesUpFromDirs parent := fun s above habove =>
      hup s above (habove.trans (List.suffix_cons _ _))
    rcases ih hplain' hup' rfl with rfl | ⟨dir, hleads, -, hempty⟩
    · exact .inl rfl
    · -- the last step leads on from an empty directory, which only a step up could do
      exfalso
      have hstands := (hparent.grows hd).stands hd
      obtain ⟨dir', hdir'⟩ : ∃ dir', d'.dirAt (s :: parent) = .ok dir' := by
        cases hdirAt : d'.dirAt (s :: parent) with
        | ok dir' => exact ⟨dir', rfl⟩
        | error e' =>
          rw [hdirAt] at he
          cases he
      cases s with
      | name s =>
        have hsome := hleads.isSome_of_dirAt hstands (hplain s List.mem_cons_self) hdir'
        rw [at?_append, hempty] at hsome
        cases hsome
      | _ =>
        obtain ⟨dir, hdir⟩ := hup _ parent (List.suffix_refl _) (by simp)
        rw [makeDir_of_not_name (by simp) hdir] at hnotFound
        cases hnotFound

/-! ### writing a file -/

/-- a file is written into a directory, in a place that is free or instead of a file -/
theorem fileAt_eq_ok {root : FileTree} (hroot : root.look [] = some (.dir [])) {place : Place}
    (hends : Ends root place) {names : List String} (h : fileAt root place = .ok names) :
    names = place.names ∧
      (root.look names = none ∨ ∃ content, root.at? names = some (.file content)) ∧
        ∃ dir name, names = dir ++ [name] ∧ root.look dir = some (.dir []) := by
  cases place with
  | absent parent name =>
    cases h
    exact ⟨rfl, .inl (look_eq_none_iff.mpr hends.2), parent, name, rfl, hends.1⟩
  | found names' =>
    rw [fileAt] at h
    split at h
    · rename_i content hat
      cases h
      refine ⟨rfl, .inr ⟨content, hat⟩, ?_⟩
      rcases names.eq_nil_or_concat with rfl | ⟨dir, name, rfl⟩
      · rw [look_eq_file_iff.mpr hat] at hroot
        cases hroot
      · rw [List.concat_eq_append] at hat ⊢
        exact ⟨dir, name, rfl, look_dir_of_isSome (Option.isSome_iff_exists.mpr ⟨_, hat⟩)⟩
    · cases h

/-- What a file that is written does to a disk: it stands where the path leads, and nothing else
looks different. -/
structure WritesTo (d d' : Disk) (p : Path) (content : Text.Bytes) (names : List String) :
    Prop where
  cwd : d'.cwd = d.cwd
  file : d'.root.at? names = some (.file content)
  others : ∀ others, others ≠ names → d'.root.look others = d.root.look others
  locate : d'.locate p = .ok (.found names)
  /-- only a file is overwritten, and only where the path led to it -/
  old : d.root.look names = none ∨
    (∃ content', d.root.at? names = some (.file content')) ∧ d.locate p = .ok (.found names)

theorem WritesTo.keepsWays {d d' : Disk} {p : Path} {content : Text.Bytes} {names : List String}
    (h : d.WritesTo d' p content names) : d.root.KeepsWays d'.root :=
  keepsWays_of_look_eq h.others (h.old.imp_right And.left)

/-- where a path leads when a file stands there and nothing else looks different -/
theorem locate_of_file {d d' : Disk} {p : Path} {place : Place}
    (h : d.locatePieces .creation p.pieces = .ok place) (hcwd : d'.cwd = d.cwd)
    {content : Text.Bytes} (hfile : d'.root.at? place.names = some (.file content))
    (hothers : ∀ others, others ≠ place.names → d'.root.look others = d.root.look others)
    (hold : d.root.look place.names = none ∨
      ∃ content', d.root.at? place.names = some (.file content')) :
    d'.locate p = .ok (.found place.names) := by
  obtain ⟨hpassable, hfollow⟩ := locatePieces_eq_ok (by decide) h
  have hstart : d'.start p.pieces = d.start p.pieces := by rw [start, start, hcwd]
  rw [locate, locatePieces_of_passable hpassable, hstart]
  exact (reaches_of_follow hfollow).follow_of_file (keepsWays_of_look_eq hothers hold) hfile

theorem writesTo_withFile {d : Disk} (hd : d.Stands) {p : Path} {place : Place}
    (hplace : d.locatePieces .creation p.pieces = .ok place) {names : List String}
    (hnames : fileAt d.root place = .ok names) (content : Text.Bytes) :
    d.WritesTo (d.withFile names content) p content names := by
  have hends : Ends d.root place :=
    (reaches_of_follow (locatePieces_eq_ok (by decide) hplace).2).ends (hd.look_start _)
  obtain ⟨rfl, hold, dir, name, hdir, hlook⟩ := fileAt_eq_ok (look_nil_of_dir hd) hends hnames
  have hfile : (d.withFile place.names content).root.at? place.names = some (.file content) := by
    rw [withFile, hdir]
    exact at?_insert hlook name (.file content) []
  have hothers (others : List String) (hne : others ≠ place.names) :
      (d.withFile place.names content).root.look others = d.root.look others := by
    have hempty : ∀ n ∈ d.root.at? place.names, n.IsEmpty := by
      intro n hn
      rcases hold with hnone | ⟨content', hat⟩
      · rw [look_eq_none_iff.mp hnone] at hn
        cases hn
      · rw [hat] at hn
        cases hn
        exact isEmpty_file content'
    rw [hdir] at hne hempty
    rw [withFile, hdir]
    exact look_insert_of_ne hlook hempty (isEmpty_file content) hne
  refine ⟨rfl, hfile, hothers, locate_of_file hplace rfl hfile hothers hold, ?_⟩
  refine hold.imp_right fun ⟨content', hat⟩ => ⟨⟨content', hat⟩, ?_⟩
  exact locate_of_file hplace rfl hat (fun _ _ => rfl) (.inr ⟨content', hat⟩)

/-- what a write that has begun leaves of a content, and the fault if there is one -/
inductive Leaves (d : Disk) (names : List String) (content : Text.Bytes) :
    Text.Bytes → Option FileError → Prop
  | all : d.faults.writing names = none → Leaves d names content content none
  | part {written : Nat} {e : FileError} : d.faults.writing names = some (.broken written e) →
      Leaves d names content (content.take written) (some e)

/-- **A write does nothing or writes one file**, to which the path leads then: all of the content,
or the beginning of it when the write breaks off. -/
theorem write_spec {d : Disk} (hd : d.Stands) (p : Path) (content : Text.Bytes) :
    (∃ e, d.write p content = (d, some e)) ∨
      ∃ d' names kept fault, d.write p content = (d', fault) ∧
        d.Leaves names content kept fault ∧ d.WritesTo d' p kept names := by
  rw [write]
  cases hplace : d.locatePieces .creation p.pieces with
  | error e => exact .inl ⟨e, rfl⟩
  | ok place =>
    dsimp only [Except.bind]
    cases hnames : fileAt d.root place with
    | error e => exact .inl ⟨e, rfl⟩
    | ok names =>
      have hwrites := writesTo_withFile hd hplace hnames
      dsimp only
      cases hwriting : d.faults.writing names with
      | none => exact .inr ⟨_, names, content, none, rfl, .all hwriting, hwrites content⟩
      | some fault =>
        cases fault with
        | refused e => exact .inl ⟨e, rfl⟩
        | broken written e =>
          exact .inr ⟨_, names, _, _, rfl, .part hwriting, hwrites (content.take written)⟩

end VersionFloor.Disk
