import VersionFloor.Proofs.Command.Init
import VersionFloor.Proofs.File.Made

/-!
# Commands: what a command that fails leaves behind

Nothing takes back what was made before the fault: a path may fail when its directories are there
already, and a write may break off when the file is there (`run_fails_behind_new`).  These
directories and this file are all that can be new, and every other node looks as it did
(`run_of_failure`).
-/

namespace VersionFloor.Init

open Disk

/-! ### making the directory of the output -/

/-- the last steps of a path are read from its end -/
theorem exists_prefix {steps : List Path.Step} {p : List Path.Step → Prop}
    (h : ∃ above, above <:+ steps.reverse ∧ p above) :
    ∃ above, above <+: steps ∧ p above.reverse := by
  obtain ⟨above, habove, hp⟩ := h
  refine ⟨above.reverse, List.reverse_suffix.mp ?_, ?_⟩
  · rwa [List.reverse_reverse]
  · rwa [List.reverse_reverse]

theorem makeParent_new {d : Disk} (hd : d.Stands) (output : Path) (names : List String) :
    (makeParent d output).1.root.look names = d.root.look names ∨
      d.root.look names = none ∧ (makeParent d output).1.root.look names = some (.dir []) ∧
        ∃ parents above, output.parent? = some parents ∧ above <+: parents ∧
          (makeParent d output).1.Leads above.reverse names := by
  rw [makeParent]
  cases hparents : output.parent? with
  | none => exact .inl rfl
  | some parents =>
    dsimp only
    split
    · exact .inl rfl
    · have hmakes := makes_makeDirs d parents.reverse
      refine (hmakes.growsAlong hd (isPlain_of_parent? hparents) names).imp_right ?_
      rintro ⟨hnone, hnew, hleads⟩
      obtain ⟨above, habove, hleads⟩ := exists_prefix hleads
      exact ⟨hnone, hnew, parents, above, rfl, habove, hleads⟩

theorem makeParent_changes {d : Disk} (hd : d.Stands) {output : Path}
    (h : (makeParent d output).1 ≠ d) :
    ∃ parents, output.parent? = some parents ∧ (∀ dir, d.dirAt parents.reverse ≠ .ok dir) ∧
      ∃ above, above <+: parents ∧ (d.makeDir above.reverse).isOk = true := by
  rw [makeParent] at h
  cases hparents : output.parent? with
  | none =>
    rw [hparents] at h
    exact absurd rfl h
  | some parents =>
    rw [hparents] at h
    dsimp only at h
    split at h
    · exact absurd rfl h
    · have hmakes := makes_makeDirs d parents.reverse
      have hmade := hmakes.eq_or_canMake.resolve_left h
      refine ⟨parents, rfl, fun dir hdir => ?_, exists_prefix hmade⟩
      rw [makeDirs_of_dirAt hd (isPlain_of_parent? hparents) hdir] at h
      exact h rfl

/-! ### the run -/

/-- a command that fails has made the directory of the output at most, or the write broke off -/
theorem run_snd_of_failure {d : Disk} (hd : d.Stands) {output : Path}
    (h : (run d output).1.exitCode = 2) :
    (run d output).2 = d ∨ d.pathExists output = false ∧
      ((run d output).2 = (makeParent d output).1 ∨
        (makeParent d output).2 = none ∧ ∃ new content, BreaksOff d new content ∧
          (makeParent d output).1.WritesTo (run d output).2 output content new) := by
  rcases run_cases d output with
    ⟨-, hrun⟩ | ⟨hexists, ⟨e, -, hrun⟩ | ⟨hparent, d', fault, hwrite, hrun⟩⟩ <;> rw [hrun] at h ⊢
  · exact .inl rfl
  · exact .inr ⟨hexists, .inl rfl⟩
  · rcases write_brings hd hexists hparent hwrite with ⟨rfl, -⟩ | ⟨-, hleft⟩
    · cases h
    · exact .inr ⟨hexists, hleft.imp_right fun hbroken => ⟨hparent, hbroken⟩⟩

/-- **A command that fails makes directories at most, and one file if the write breaks off.**  What
was there looks the same.  What is new are directories to which the path leads on its way to the
output, and then the file with the beginning of the template to which it leads; only this file may
stand instead of another, which takes a step up from a directory that was missing.  Nothing is new
when the output was there, or when the write does not break off and the directory of the output was
there or none of the directories on the way could be made. -/
theorem run_of_failure (d : Disk) (hd : d.Stands) (output : Path)
    (h : (run d output).1.exitCode = 2) :
    (run d output).2.cwd = d.cwd ∧
    (∀ names, (run d output).2.root.look names = d.root.look names ∨
      d.root.look names = none ∧ (run d output).2.root.look names = some (.dir []) ∧
        (∃ parents above, output.parent? = some parents ∧ above <+: parents ∧
          (run d output).2.Leads above.reverse names) ∨
      ∃ content, BreaksOff d names content ∧
        BringsFile d (run d output).2 output content names) ∧
    ((run d output).2 = d ∨
      d.pathExists output = false ∧
        ((∃ parents, output.parent? = some parents ∧
          (∀ dir, d.dirAt parents.reverse ≠ .ok dir) ∧
            ∃ above, above <+: parents ∧ (d.makeDir above.reverse).isOk = true) ∨
        ∃ new content, BreaksOff d new content ∧
          (run d output).2.root.at? new = some (.file content))) := by
  rcases run_snd_of_failure hd h with
    hrun | ⟨hexists, hrun | ⟨hparent, new, content, hbreaks, hwrites⟩⟩
  · rw [hrun]
    exact ⟨rfl, fun _ => .inl rfl, .inl rfl⟩
  · rw [hrun]
    refine ⟨(makeParent_grows hd output).cwd, fun names => ?_, ?_⟩
    · exact (makeParent_new hd output names).imp_right .inl
    · by_cases hsame : (makeParent d output).1 = d
      · exact .inl hsame
      · exact .inr ⟨hexists, .inl (makeParent_changes hd hsame)⟩
  · have hbrings := bringsFile_of_write hd hexists hparent hwrites
    refine ⟨hbrings.cwd, fun names => ?_,
      .inr ⟨hexists, .inr ⟨new, content, hbreaks, hwrites.file⟩⟩⟩
    by_cases hnames : names = new
    · subst hnames
      exact .inr (.inr ⟨content, hbreaks, hbrings⟩)
    · rw [hwrites.others names hnames]
      -- the same directories are on the way to the output when the file has come to the disk
      refine (makeParent_new hd output names).imp_right
        fun ⟨hnone, hnew, parents, above, hparents, habove, hleads⟩ => ?_
      exact .inl ⟨hnone, hnew, parents, above, hparents, habove,
        hleads.mono hwrites.cwd hwrites.keepsWays⟩

theorem run_of_failure_linked :
    linkedDisk.Stands ∧ (run linkedDisk ⟨"conf/new/x/"⟩).1.exitCode = 2 ∧
      linkedDisk.root.look ["sub", "etc", "new"] = none ∧
        ∃ parents above, Path.parent? ⟨"conf/new/x/"⟩ = some parents ∧ above <+: parents ∧
          (run linkedDisk ⟨"conf/new/x/"⟩).2.Leads above.reverse ["sub", "etc", "new"] := by
  have hstands : linkedDisk.Stands := rfl
  have hexit : (run linkedDisk ⟨"conf/new/x/"⟩).1.exitCode = 2 := by decide +kernel
  have hnone : linkedDisk.root.look ["sub", "etc", "new"] = none := rfl
  have hnew : (run linkedDisk ⟨"conf/new/x/"⟩).2.root.look ["sub", "etc", "new"] =
      some (.dir []) := FileTree.look_dir_of_any (by decide +kernel)
  obtain ⟨-, hlook, -⟩ := run_of_failure linkedDisk hstands ⟨"conf/new/x/"⟩ hexit
  rcases hlook ["sub", "etc", "new"] with hsame | ⟨-, -, hleads⟩ | ⟨content, ⟨_, _, hbroken, -⟩, -⟩
  · rw [hnew, hnone] at hsame
    cases hsame
  · exact ⟨hstands, hexit, hnone, hleads⟩
  · cases hbroken

/-- an empty disk that is full behind the first bytes of every file -/
def fullDisk : Disk where
  root := .dir []
  cwd := []
  faults := { Faults.none with writing := fun _ => some (.broken 3 .noSpace) }

/-- The output would be a directory, and the directory above it has been made by then; or the write
breaks off when the file is there. -/
theorem run_fails_behind_new :
    ((Disk.bare []).Stands ∧ (run (Disk.bare []) ⟨"a/b/"⟩).1.exitCode = 2 ∧
      (Disk.bare []).root.look ["a"] = none ∧
        (run (Disk.bare []) ⟨"a/b/"⟩).2.root.look ["a"] = some (.dir [])) ∧
    fullDisk.Stands ∧ (run fullDisk ⟨"c"⟩).1.exitCode = 2 ∧ fullDisk.root.look ["c"] = none ∧
      (run fullDisk ⟨"c"⟩).2.root.at? ["c"] = some (.file ((Text.encode template).take 3)) :=
  ⟨⟨rfl, by decide +kernel, rfl, FileTree.look_dir_of_any (by decide +kernel)⟩,
    rfl, by decide +kernel, rfl, rfl⟩

end VersionFloor.Init
