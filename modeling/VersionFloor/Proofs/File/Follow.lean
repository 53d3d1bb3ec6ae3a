import VersionFloor.File.Disk
import VersionFloor.Proofs.File.Look

/-!
# Files: following a path

Where the pieces of a path lead.  `Enters` says it for directories, without the order in which
blanks, links and names are met: it stays true while directories and links stay (`Enters.mono`), and
following a path passes through every directory that its first pieces lead to
(`Enters.follow_append`).
-/

namespace VersionFloor

/-- the names that a path leads to, whether anything stands there or not -/
def Place.names : Place → List String
  | .found names => names
  | .absent dir name => dir ++ [name]

namespace Disk

open FileTree

/-- the pieces that lead anywhere -/
def solid (pieces : List String) : List String := pieces.filter fun s => ¬ (s = "" ∨ s = ".")

/-- a piece that names an entry -/
def IsPlain (piece : String) : Prop := piece ≠ "" ∧ piece ≠ "." ∧ piece ≠ ".."

theorem IsPlain.not_blank {piece : String} (h : IsPlain piece) : ¬ (piece = "" ∨ piece = ".") :=
  not_or.mpr ⟨h.1, h.2.1⟩

/-- where the target of a link begins -/
def base (dir : List String) (target : String) : List String :=
  if Path.isAbsolute ⟨target⟩ then [] else dir

/-- From one directory the pieces lead to another; of the links that may be met some are left. -/
inductive Enters (root : FileTree) : Nat → List String → List String → Nat → List String → Prop
  | nil {links : Nat} {dir : List String} : Enters root links dir [] links dir
  | up {links left : Nat} {dir rest dir' : List String} :
      Enters root links dir.dropLast rest left dir' → Enters root links dir (".." :: rest) left dir'
  | dir {links left : Nat} {dir rest dir' : List String} {piece : String} : IsPlain piece →
      piece.utf8ByteSize ≤ nameLimit → root.look (dir ++ [piece]) = some (.dir []) →
        Enters root links (dir ++ [piece]) rest left dir' →
          Enters root links dir (piece :: rest) left dir'
  | link {links left : Nat} {dir rest dir' : List String} {piece target : String} :
      IsPlain piece → piece.utf8ByteSize ≤ nameLimit →
        root.look (dir ++ [piece]) = some (.link target) → target ≠ "" →
          Enters root links (base dir target) (solid (Path.pieces ⟨target⟩) ++ rest) left dir' →
            Enters root (links + 1) dir (piece :: rest) left dir'

/-! ### one piece -/

section

variable {root : FileTree} {aim : Aim}
  {jump : List String → List String → Except FileError Place} {dir : List String}

theorem followWith_blank {piece : String} (h : piece = "" ∨ piece = ".") (rest : List String) :
    followWith root aim jump dir (piece :: rest) = followWith root aim jump dir rest := by
  rw [followWith, if_pos h]

theorem followWith_up (rest : List String) :
    followWith root aim jump dir (".." :: rest) =
      followWith root aim jump dir.dropLast rest := by
  rw [followWith, if_neg (by decide), if_pos rfl]

/-- what an entry leads to -/
def followEntry (root : FileTree) (aim : Aim)
    (jump : List String → List String → Except FileError Place) (dir : List String)
    (piece : String) (rest : List String) : Option FileTree → Except FileError Place
  | none => if rest = [] then .ok (.absent dir piece) else .error .notFound
  | some (.dir _) => followWith root aim jump (dir ++ [piece]) rest
  | some (.file _) => if rest = [] then .ok (.found (dir ++ [piece])) else .error .notDirectory
  | some (.link target) =>
    if target = "" then .error .notFound
    else jump (base dir target) (Path.pieces ⟨target⟩ ++ rest)

theorem followWith_plain {piece : String} (h : IsPlain piece) (rest : List String) :
    followWith root aim jump dir (piece :: rest) =
      if aim = .creation ∧ rest ≠ [] ∧ rest.all (· = "") then .error .isDirectory
      else if nameLimit < piece.utf8ByteSize ∨
          aim = .spelling ∧ pathLimit < fullBytes (dir ++ [piece]) then .error .nameTooLong
      else followEntry root aim jump dir piece rest (root.at? (dir ++ [piece])) := by
  rw [followWith, if_neg h.not_blank, if_neg h.2.2]
  rfl

theorem isPlain_of_not {piece : String} (hblank : ¬ (piece = "" ∨ piece = "."))
    (hup : piece ≠ "..") : IsPlain piece :=
  ⟨fun h => hblank (.inl h), fun h => hblank (.inr h), hup⟩

end

/-- how it goes on behind a link -/
def jump (root : FileTree) (aim : Aim) :
    Nat → List String → List String → Except FileError Place
  | 0 => fun _ _ => .error .tooManyLinks
  | links + 1 => follow root aim links

theorem follow_eq (root : FileTree) (aim : Aim) (links : Nat) :
    follow root aim links = followWith root aim (jump root aim links) := by
  cases links <;> rfl

/-! ### through directories -/

section

variable {root : FileTree} {aim : Aim}

theorem solid_cons_of_blank {piece : String} (h : piece = "" ∨ piece = ".") (rest : List String) :
    solid (piece :: rest) = solid rest :=
  List.filter_cons_of_neg (by rw [decide_eq_true_iff]; exact not_not.mpr h)

theorem solid_cons {piece : String} (h : ¬ (piece = "" ∨ piece = ".")) (rest : List String) :
    solid (piece :: rest) = piece :: solid rest := List.filter_cons_of_pos (decide_eq_true h)

theorem solid_append (xs ys : List String) : solid (xs ++ ys) = solid xs ++ solid ys :=
  List.filter_append ..

theorem follow_blanks {blanks : List String} (h : ∀ s ∈ blanks, s = "" ∨ s = ".") (links : Nat)
    (dir ys : List String) :
    follow root aim links dir (blanks ++ ys) = follow root aim links dir ys := by
  rw [follow_eq]
  induction blanks with
  | nil => rfl
  | cons s blanks ih =>
    rw [List.cons_append, followWith_blank (h s List.mem_cons_self)]
    exact ih fun t ht => h t (List.mem_cons_of_mem _ ht)

theorem solid_eq_nil_iff {xs : List String} : solid xs = [] ↔ ∀ s ∈ xs, s = "" ∨ s = "." := by
  rw [solid, List.filter_eq_nil_iff]
  simp only [decide_eq_true_eq, not_not]

/-- the first solid piece stands behind blanks -/
theorem exists_of_solid_eq_cons {xs rest : List String} {piece : String}
    (h : solid xs = piece :: rest) :
    ∃ blanks more, xs = blanks ++ piece :: more ∧ (∀ s ∈ blanks, s = "" ∨ s = ".") ∧
      solid more = rest := by
  obtain ⟨blanks, more, rfl, hblanks, -, hmore⟩ := List.filter_eq_cons_iff.mp h
  exact ⟨blanks, more, rfl, solid_eq_nil_iff.mp (List.filter_eq_nil_iff.mpr hblanks), hmore⟩

/-- behind a piece there is more of the path, if something new is to stand at its end -/
def GoesOn (aim : Aim) (rest : List String) : Prop :=
  aim = .lookup ∨ aim = .creation ∧ ∃ y ∈ rest, y ≠ ""

theorem goesOn_lookup (rest : List String) : GoesOn .lookup rest := .inl rfl

theorem GoesOn.append {ys : List String} (h : GoesOn aim ys) (xs : List String) :
    GoesOn aim (xs ++ ys) :=
  h.imp_right fun ⟨haim, y, hy, hne⟩ => ⟨haim, y, List.mem_append_right xs hy, hne⟩

/-- a piece behind which the path goes on -/
theorem follow_plain {links : Nat} {dir : List String} {piece : String} (hplain : IsPlain piece)
    (hsize : piece.utf8ByteSize ≤ nameLimit) {rest : List String} (hrest : GoesOn aim rest) :
    follow root aim links dir (piece :: rest) =
      followEntry root aim (jump root aim links) dir piece rest
        (root.at? (dir ++ [piece])) := by
  have hslash : ¬ (aim = .creation ∧ rest ≠ [] ∧ rest.all (· = "")) := by
    rintro ⟨hcreation, -, hall⟩
    rcases hrest with rfl | ⟨-, y, hy, hne⟩
    · cases hcreation
    · exact hne (of_decide_eq_true (List.all_eq_true.mp hall y hy))
  have hlong : ¬ (nameLimit < piece.utf8ByteSize ∨
      aim = .spelling ∧ pathLimit < fullBytes (dir ++ [piece])) := by
    rintro (hlarge | ⟨rfl, -⟩)
    · exact absurd hsize (Nat.not_le.mpr hlarge)
    · rcases hrest with hlookup | ⟨hcreation, -⟩
      · cases hlookup
      · cases hcreation
  rw [follow_eq, followWith_plain hplain, if_neg hslash, if_neg hlong]

/-- **A path is followed through the directories that its first pieces lead to.** -/
theorem Enters.follow_append {links left : Nat} {dir pieces dir' : List String}
    (h : Enters root links dir pieces left dir') {xs ys : List String} (hxs : solid xs = pieces)
    (hys : GoesOn aim ys) :
    follow root aim links dir (xs ++ ys) = follow root aim left dir' ys := by
  induction h generalizing xs with
  | @nil links dir => exact follow_blanks (solid_eq_nil_iff.mp hxs) links dir ys
  | up _ ih =>
    obtain ⟨blanks, more, rfl, hblanks, hmore⟩ := exists_of_solid_eq_cons hxs
    rw [List.append_assoc, follow_blanks hblanks, List.cons_append, follow_eq, followWith_up,
      ← follow_eq]
    exact ih hmore
  | dir hplain hsize hlook _ ih =>
    obtain ⟨blanks, more, rfl, hblanks, hmore⟩ := exists_of_solid_eq_cons hxs
    obtain ⟨es, hes⟩ := look_eq_dir_iff.mp hlook
    rw [List.append_assoc, follow_blanks hblanks, List.cons_append,
      follow_plain hplain hsize (hys.append more), hes, followEntry, ← follow_eq]
    exact ih hmore
  | link hplain hsize hlook htarget _ ih =>
    obtain ⟨blanks, more, rfl, hblanks, hmore⟩ := exists_of_solid_eq_cons hxs
    rw [List.append_assoc, follow_blanks hblanks, List.cons_append,
      follow_plain hplain hsize (hys.append more), look_eq_link_iff.mp hlook, followEntry,
      if_neg htarget, ← List.append_assoc]
    exact ih (by rw [solid_append, hmore])

/-- the directory that all pieces lead to -/
theorem Enters.follow {links left : Nat} {dir pieces dir' : List String}
    (h : Enters root links dir pieces left dir') {xs : List String} (hxs : solid xs = pieces) :
    Disk.follow root .lookup links dir xs = .ok (.found dir') := by
  rw [← List.append_nil xs, h.follow_append hxs (goesOn_lookup _), follow_eq]
  rfl

end

/-! ### while directories and links stay -/

section

variable {root root' : FileTree} {links left : Nat} {dir pieces dir' : List String}

theorem Enters.mono (h : Enters root links dir pieces left dir') (hways : root.KeepsWays root') :
    Enters root' links dir pieces left dir' := by
  induction h with
  | nil => exact .nil
  | up _ ih => exact .up ih
  | dir hplain hsize hlook _ ih => exact .dir hplain hsize (hways.dirs _ hlook) ih
  | link hplain hsize hlook htarget _ ih =>
    exact .link hplain hsize (hways.links _ _ hlook) htarget ih

theorem Enters.append (h : Enters root links dir pieces left dir') {more dir'' : List String}
    {left' : Nat} (hmore : Enters root left dir' more left' dir'') :
    Enters root links dir (pieces ++ more) left' dir'' := by
  induction h with
  | nil => exact hmore
  | up _ ih => exact .up (ih hmore)
  | dir hplain hsize hlook _ ih => exact .dir hplain hsize hlook (ih hmore)
  | link hplain hsize hlook htarget _ ih =>
    have hrest := ih hmore
    rw [List.append_assoc] at hrest
    exact .link hplain hsize hlook htarget hrest

/-- on the way there is a directory to which the first pieces lead -/
theorem Enters.exists_of_append {front back : List String}
    (h : Enters root links dir (front ++ back) left dir') :
    ∃ between middle, Enters root links dir front between middle ∧
      Enters root between middle back left dir' := by
  generalize hpieces : front ++ back = pieces at h
  induction h generalizing front with
  | nil =>
    obtain ⟨rfl, rfl⟩ := List.append_eq_nil_iff.mp hpieces
    exact ⟨_, _, .nil, .nil⟩
  | up hrest ih =>
    rcases List.append_eq_cons_iff.mp hpieces with ⟨rfl, rfl⟩ | ⟨front, rfl, hrest⟩
    · exact ⟨_, _, .nil, .up hrest⟩
    · obtain ⟨between, middle, hfront, hback⟩ := ih hrest.symm
      exact ⟨between, middle, .up hfront, hback⟩
  | dir hplain hsize hlook hrest ih =>
    rcases List.append_eq_cons_iff.mp hpieces with ⟨rfl, rfl⟩ | ⟨front, rfl, hrest⟩
    · exact ⟨_, _, .nil, .dir hplain hsize hlook hrest⟩
    · obtain ⟨between, middle, hfront, hback⟩ := ih hrest.symm
      exact ⟨between, middle, .dir hplain hsize hlook hfront, hback⟩
  | link hplain hsize hlook htarget hrest ih =>
    rcases List.append_eq_cons_iff.mp hpieces with ⟨rfl, rfl⟩ | ⟨front, rfl, rfl⟩
    · exact ⟨_, _, .nil, .link hplain hsize hlook htarget hrest⟩
    · obtain ⟨between, middle, hfront, hback⟩ := ih (List.append_assoc ..)
      exact ⟨between, middle, .link hplain hsize hlook htarget hfront, hback⟩

theorem look_base {dir : List String} (h : root.look dir = some (.dir [])) (target : String) :
    root.look (base dir target) = some (.dir []) := by
  rw [base]
  split
  · exact look_nil_of_dir h
  · exact h

theorem Enters.look (h : Enters root links dir pieces left dir')
    (hdir : root.look dir = some (.dir [])) : root.look dir' = some (.dir []) := by
  induction h with
  | nil => exact hdir
  | up _ ih => exact ih (look_dropLast hdir)
  | dir _ _ hlook _ ih => exact ih hlook
  | link _ _ _ _ _ ih => exact ih (look_base hdir _)

end

/-! ### all the way -/

/-- what a path leads to from a directory, piece by piece -/
inductive Reaches (root : FileTree) : Nat → List String → List String → Place → Prop
  | here {links : Nat} {dir : List String} : Reaches root links dir [] (.found dir)
  | blank {links : Nat} {dir rest : List String} {piece : String} {place : Place} :
      piece = "" ∨ piece = "." → Reaches root links dir rest place →
        Reaches root links dir (piece :: rest) place
  | up {links : Nat} {dir rest : List String} {place : Place} :
      Reaches root links dir.dropLast rest place → Reaches root links dir (".." :: rest) place
  | dir {links : Nat} {dir rest : List String} {piece : String} {place : Place} :
      IsPlain piece → piece.utf8ByteSize ≤ nameLimit →
        root.look (dir ++ [piece]) = some (.dir []) →
          Reaches root links (dir ++ [piece]) rest place →
            Reaches root links dir (piece :: rest) place
  | link {links : Nat} {dir rest : List String} {piece target : String} {place : Place} :
      IsPlain piece → piece.utf8ByteSize ≤ nameLimit →
        root.look (dir ++ [piece]) = some (.link target) → target ≠ "" →
          Reaches root links (base dir target) (Path.pieces ⟨target⟩ ++ rest) place →
            Reaches root (links + 1) dir (piece :: rest) place
  | file {links : Nat} {dir : List String} {piece : String} {content : Text.Bytes} :
      IsPlain piece → piece.utf8ByteSize ≤ nameLimit →
        root.at? (dir ++ [piece]) = some (.file content) →
          Reaches root links dir [piece] (.found (dir ++ [piece]))
  | absent {links : Nat} {dir : List String} {piece : String} :
      IsPlain piece → piece.utf8ByteSize ≤ nameLimit → root.at? (dir ++ [piece]) = none →
        Reaches root links dir [piece] (.absent dir piece)

section

variable {root : FileTree} {aim : Aim} {place : Place}

theorem reaches_of_followEntry {links : Nat}
    (hjump : ∀ dir xs, jump root aim links dir xs = .ok place →
      ∃ fewer, links = fewer + 1 ∧ Reaches root fewer dir xs place)
    {dir rest : List String} {piece : String} (hplain : IsPlain piece)
    (hsize : piece.utf8ByteSize ≤ nameLimit)
    (hrest : followWith root aim (jump root aim links) (dir ++ [piece]) rest = .ok place →
      Reaches root links (dir ++ [piece]) rest place)
    (h : followEntry root aim (jump root aim links) dir piece rest (root.at? (dir ++ [piece])) =
      .ok place) :
    Reaches root links dir (piece :: rest) place := by
  cases hat : root.at? (dir ++ [piece]) with
  | none =>
    rw [hat, followEntry] at h
    split at h
    · rename_i hlast
      cases h
      subst hlast
      exact .absent hplain hsize hat
    · cases h
  | some n =>
    rw [hat] at h
    cases n with
    | dir es => exact .dir hplain hsize (look_eq_dir_iff.mpr ⟨es, hat⟩) (hrest h)
    | file content =>
      rw [followEntry] at h
      split at h
      · rename_i hlast
        cases h
        subst hlast
        exact .file hplain hsize hat
      · cases h
    | link target =>
      rw [followEntry] at h
      split at h
      · cases h
      · rename_i htarget
        obtain ⟨fewer, rfl, hreaches⟩ := hjump _ _ h
        exact .link hplain hsize (look_eq_link_iff.mpr hat) htarget hreaches

theorem reaches_of_followWith {links : Nat}
    (hjump : ∀ dir xs, jump root aim links dir xs = .ok place →
      ∃ fewer, links = fewer + 1 ∧ Reaches root fewer dir xs place)
    {dir xs : List String}
    (h : followWith root aim (jump root aim links) dir xs = .ok place) :
    Reaches root links dir xs place := by
  induction xs generalizing dir with
  | nil =>
    cases h
    exact .here
  | cons piece rest ih =>
    by_cases hblank : piece = "" ∨ piece = "."
    · rw [followWith_blank hblank] at h
      exact .blank hblank (ih h)
    · by_cases hup : piece = ".."
      · subst hup
        rw [followWith_up] at h
        exact .up (ih h)
      · have hplain := isPlain_of_not hblank hup
        rw [followWith_plain hplain] at h
        split at h
        · cases h
        · split at h
          · cases h
          · rename_i hlong
            have hsize := Nat.not_lt.mp (not_or.mp hlong).1
            exact reaches_of_followEntry hjump hplain hsize ih h

theorem reaches_of_follow {links : Nat} {dir xs : List String}
    (h : follow root aim links dir xs = .ok place) : Reaches root links dir xs place := by
  induction links generalizing dir xs with
  | zero => exact reaches_of_followWith (fun _ _ h => (by cases h)) h
  | succ links ih => exact reaches_of_followWith (fun _ _ h => ⟨links, rfl, ih h⟩) h

/-- a directory that is reached is entered -/
theorem Reaches.enters {links : Nat} {dir xs names : List String}
    (h : Reaches root links dir xs (.found names)) (hnames : root.look names = some (.dir [])) :
    ∃ left, Enters root links dir (solid xs) left names := by
  generalize hplace : Place.found names = place at h
  induction h with
  | here =>
    cases hplace
    exact ⟨_, .nil⟩
  | blank hblank _ ih =>
    rw [solid_cons_of_blank hblank]
    exact ih hplace
  | up _ ih =>
    obtain ⟨left, henters⟩ := ih hplace
    rw [solid_cons (by decide)]
    exact ⟨left, .up henters⟩
  | dir hplain hsize hlook _ ih =>
    obtain ⟨left, henters⟩ := ih hplace
    rw [solid_cons hplain.not_blank]
    exact ⟨left, .dir hplain hsize hlook henters⟩
  | link hplain hsize hlook htarget _ ih =>
    obtain ⟨left, henters⟩ := ih hplace
    rw [solid_append] at henters
    rw [solid_cons hplain.not_blank]
    exact ⟨left, .link hplain hsize hlook htarget henters⟩
  | file _ _ hat =>
    cases hplace
    rw [look_eq_file_iff.mpr hat] at hnames
    cases hnames
  | absent => cases hplace

/-- what stands where a path leads, in a directory or for want of it -/
def Ends (root : FileTree) : Place → Prop
  | .found names => (root.at? names).isSome = true
  | .absent parent name => root.look parent = some (.dir []) ∧ root.at? (parent ++ [name]) = none

theorem Reaches.ends {links : Nat} {dir xs : List String} (h : Reaches root links dir xs place)
    (hdir : root.look dir = some (.dir [])) : Ends root place := by
  induction h with
  | here =>
    obtain ⟨es, hes⟩ := look_eq_dir_iff.mp hdir
    exact Option.isSome_iff_exists.mpr ⟨_, hes⟩
  | blank _ _ ih => exact ih hdir
  | up _ ih => exact ih (look_dropLast hdir)
  | dir _ _ hlook _ ih => exact ih hlook
  | link _ _ _ _ _ ih => exact ih (look_base hdir _)
  | file _ _ hat => exact Option.isSome_iff_exists.mpr ⟨_, hat⟩
  | absent _ _ hat => exact ⟨hdir, hat⟩

/-- Where a file stands in a tree with the same directories and links, there the path leads. -/
theorem Reaches.follow_of_file {links : Nat} {dir xs : List String}
    (h : Reaches root links dir xs place) {root' : FileTree} (hways : root.KeepsWays root')
    {content : Text.Bytes} (hfile : root'.at? place.names = some (.file content)) :
    follow root' .lookup links dir xs = .ok (.found place.names) := by
  induction h with
  | here =>
    rw [follow_eq]
    rfl
  | blank hblank _ ih =>
    rw [follow_eq, followWith_blank hblank, ← follow_eq]
    exact ih hfile
  | up _ ih =>
    rw [follow_eq, followWith_up, ← follow_eq]
    exact ih hfile
  | dir hplain hsize hlook _ ih =>
    obtain ⟨es, hes⟩ := look_eq_dir_iff.mp (hways.dirs _ hlook)
    rw [follow_plain hplain hsize (goesOn_lookup _), hes, followEntry, ← follow_eq]
    exact ih hfile
  | link hplain hsize hlook htarget _ ih =>
    rw [follow_plain hplain hsize (goesOn_lookup _),
      look_eq_link_iff.mp (hways.links _ _ hlook), followEntry, if_neg htarget]
    exact ih hfile
  | file hplain hsize _ =>
    rw [Place.names] at hfile ⊢
    rw [follow_plain hplain hsize (goesOn_lookup _), hfile, followEntry, if_pos rfl]
  | absent hplain hsize _ =>
    rw [Place.names] at hfile ⊢
    rw [follow_plain hplain hsize (goesOn_lookup _), hfile, followEntry, if_pos rfl]

end

end Disk

end VersionFloor
