import VersionFloor.Command.Init
import VersionFloor.Proofs.File.Disk
import VersionFloor.Proofs.Text.Utf8

/-!
# Commands: what beginning with a settings file leaves behind

The command makes directories at most, or one file stands where the path leads now: it holds the
template, or the beginning of it when the write breaks off (`run_keeps`).  The path is looked for
before the directories are made, so a step up from a directory that is still missing can lead to a
file that is there (`run_overwrites`); no other path does.
-/

namespace VersionFloor

namespace Disk

/-- Every step up of the path is a step from a directory that is there. -/
def HasStepsUp (d : Disk) (p : Path) : Prop :=
  ∀ above, above ++ [.up] <+: p.steps → ∃ dir, d.dirAt above.reverse = .ok dir

/-- of the steps that are not to names the first come first, and the others are steps up -/
theorem HasStepsUp.dirAt {d : Disk} {p : Path} (h : d.HasStepsUp p) {above : List Path.Step}
    {s : Path.Step} (hpre : above ++ [s] <+: p.steps) (hs : ∀ name, s ≠ .name name) :
    ∃ dir, d.dirAt above.reverse = .ok dir := by
  cases s with
  | name s => exact absurd rfl (hs s)
  | up => exact h above hpre
  | root =>
    obtain rfl := Path.eq_nil_of_steps hpre (.inl rfl)
    exact ⟨d.cwd, rfl⟩
  | here =>
    obtain rfl := Path.eq_nil_of_steps hpre (.inr rfl)
    exact ⟨d.cwd, rfl⟩

theorem HasStepsUp.goesUpFromDirs {d : Disk} {p : Path} (h : d.HasStepsUp p)
    {parents : List Path.Step} (hparents : parents <+: p.steps) :
    d.GoesUpFromDirs parents.reverse := by
  intro s parent hsuffix hs
  have hpre : parent.reverse ++ [s] <+: parents := by
    rw [← List.reverse_cons]
    exact List.reverse_suffix.mp (by rwa [List.reverse_reverse])
  have hdir := h.dirAt (hpre.trans hparents) hs
  rwa [List.reverse_reverse] at hdir

end Disk

namespace Init

open FileTree Disk

theorem parent?_eq_some {p : Path} {parents : List Path.Step} (h : p.parent? = some parents) :
    ∃ last, p.steps = parents ++ [last] := by
  rw [Path.parent?] at h
  cases hlast : p.steps.getLast? with
  | none =>
    rw [hlast] at h
    cases h
  | some last =>
    have hsteps : p.steps.dropLast ++ [last] = p.steps := List.dropLast_append_getLast? last hlast
    rw [hlast] at h
    cases last with
    | root => cases h
    | _ =>
      cases h
      exact ⟨_, hsteps.symm⟩

/-! ### making the directory of the output -/

theorem isPlain_of_parent? {output : Path} {parents : List Path.Step}
    (h : output.parent? = some parents) (s : String) (hs : .name s ∈ parents.reverse) :
    IsPlain s := by
  obtain ⟨last, hlast⟩ := parent?_eq_some h
  refine Path.isPlain_of_mem_steps (p := output) ?_
  rw [hlast]
  exact List.mem_append_left _ (List.mem_reverse.mp hs)

theorem makeParent_grows {d : Disk} (hd : d.Stands) (output : Path) :
    d.GrowsTo (makeParent d output).1 := by
  rw [makeParent]
  split
  · exact .refl d
  · rename_i steps _
    split
    · exact .refl d
    · exact (makes_makeDirs d steps.reverse).grows hd

theorem makeParent_leads {d : Disk} (hd : d.Stands) {output : Path} (hup : d.HasStepsUp output)
    (h : (makeParent d output).2 = none) :
    (makeParent d output).1 = d ∨ ∃ parents last, output.steps = parents ++ [last] ∧
      d.LeadsToNew (makeParent d output).1 parents.reverse := by
  cases hparents : output.parent? with
  | none =>
    rw [makeParent, hparents]
    exact .inl rfl
  | some parents =>
    rw [makeParent, hparents] at h ⊢
    obtain ⟨last, hlast⟩ := parent?_eq_some hparents
    have hpre : parents <+: output.steps := ⟨[last], hlast.symm⟩
    dsimp only at h ⊢
    split
    · exact .inl rfl
    · rename_i hsome
      rw [if_neg hsome] at h
      have hplain := isPlain_of_parent? hparents
      have hmakes := makes_makeDirs d parents.reverse
      exact (hmakes.leads hd hplain (hup.goesUpFromDirs hpre) h).imp_right fun hnew =>
        ⟨parents, last, hlast, hnew⟩

/-! ### the run -/

/-- how the command ends when it has come to the write -/
def outcomeOf (output : Path) : Option FileError → Outcome
  | none => ⟨Outcome.passed, created output, ""⟩
  | some e => .failure "" (.unwritable e)

theorem run_cases (d : Disk) (output : Path) :
    (d.pathExists output = true ∧ run d output = (.failure "" (.outputExists output), d)) ∨
      d.pathExists output = false ∧
        ((∃ e, (makeParent d output).2 = some e ∧
            run d output = (.failure "" (.noDirectory e), (makeParent d output).1)) ∨
          (makeParent d output).2 = none ∧
            ∃ d' fault, (makeParent d output).1.write output (Text.encode template) = (d', fault) ∧
              run d output = (outcomeOf output fault, d')) := by
  rw [run]
  cases hexists : d.pathExists output with
  | true => exact .inl ⟨rfl, rfl⟩
  | false =>
    refine .inr ⟨rfl, ?_⟩
    rw [if_neg (by decide)]
    obtain ⟨d', fault⟩ := makeParent d output
    cases fault with
    | some e => exact .inl ⟨e, rfl, rfl⟩
    | none =>
      dsimp only
      cases hwrite : d'.write output (Text.encode template) with
      | mk d'' fault =>
        refine .inr ⟨rfl, d'', fault, rfl, ?_⟩
        cases fault <;> rfl

theorem pathExists_of_locate {d : Disk} {p : Path} {names : List String}
    (h : d.locate p = .ok (.found names)) (hnames : (d.root.at? names).isSome = true) :
    d.pathExists p = true := by
  obtain ⟨n, hn⟩ := Option.isSome_iff_exists.mp hnames
  have hget : d.get p = .ok n := by
    simp only [Disk.get, find, h, bind, Except.bind, namesAt, hn]
  rw [pathExists, hget]
  rfl

/-- **A path whose steps up are from directories that are there leads to no file that is.** -/
theorem look_eq_none_of_write {d d' : Disk} (hd : d.Stands) {output : Path}
    (hup : d.HasStepsUp output) (hexists : d.pathExists output = false)
    (hparent : (makeParent d output).2 = none) {content : Text.Bytes} {names : List String}
    (h : (makeParent d output).1.WritesTo d' output content names) : d.root.look names = none := by
  have hgrows := makeParent_grows hd output
  rcases h.old with hnone | ⟨⟨content', hfile⟩, hlocate⟩
  · exact hgrows.root.look_eq_none hnone
  · exfalso
    have hpassable := (locatePieces_eq_ok (by decide) hlocate).1
    rcases makeParent_leads hd hup hparent with
      heq | ⟨parents, last, hlast, dir, hleads, hnew, hempty⟩
    · rw [heq] at hfile hlocate
      rw [pathExists_of_locate hlocate (by rw [hfile]; rfl)] at hexists
      cases hexists
    · by_cases hname : ∃ s, last = .name s
      · obtain ⟨s, rfl⟩ := hname
        -- the last step leads on from a new directory, in which there is nothing
        have hs : IsPlain s := Path.isPlain_of_mem_steps (p := output) (by simp [hlast])
        have hsteps : output.steps.map stepPiece = stepPieces parents.reverse ++ [s] := by
          rw [← stepPieces_name, stepPieces, List.reverse_cons, List.reverse_reverse, hlast]
        have hsome := hleads.isSome_of_follow hs
          (by rw [start_pieces _ fun h => hpassable.2.1 (.inr h), hsteps, start_append hs])
          (by rw [← Path.solid_steps, hsteps, solid_append, solid_of_isPlain hs])
          (locatePieces_eq_ok (by decide) hlocate).2
        rw [at?_append, hempty] at hsome
        cases hsome
      · -- the last step goes up from a directory that was there before
        have hpre : parents ++ [last] <+: output.steps := ⟨[], by rw [List.append_nil, hlast]⟩
        obtain ⟨before, hbefore⟩ := hup.dirAt hpre (not_exists.mp hname)
        obtain ⟨hthere, hlook⟩ := dirAt_eq_ok hd hbefore
        have heq : before = dir := (hthere.mono hgrows.cwd hgrows.root.keepsWays).unique hleads
        rw [← heq, hlook] at hnew
        cases hnew

/-- One file with this content has come to a disk, to which the path of the output leads, and else
nothing but new directories.  What was there before is a file at most, and not even that when every
step up of the path is from a directory that was there. -/
structure BringsFile (d d' : Disk) (output : Path) (content : Text.Bytes) (new : List String) :
    Prop where
  cwd : d'.cwd = d.cwd
  locate : d'.locate output = .ok (.found new)
  file : d'.root.at? new = some (.file content)
  others : ∀ names, names ≠ new → d'.root.look names = d.root.look names ∨
    d.root.look names = none ∧ d'.root.look names = some (.dir [])
  fresh : d.HasStepsUp output → d.root.look new = none
  old : d.root.look new = none ∨ ∃ content, d.root.at? new = some (.file content)

theorem bringsFile_of_write {d d' : Disk} (hd : d.Stands) {output : Path}
    (hexists : d.pathExists output = false) (hparent : (makeParent d output).2 = none)
    {content : Text.Bytes} {new : List String}
    (h : (makeParent d output).1.WritesTo d' output content new) :
    BringsFile d d' output content new := by
  have hgrows := makeParent_grows hd output
  refine ⟨h.cwd.trans hgrows.cwd, h.locate, h.file, fun names hnames => ?_, fun hup => ?_, ?_⟩
  · rw [h.others names hnames]
    exact hgrows.root names
  · exact look_eq_none_of_write hd hup hexists hparent h
  · refine h.old.imp hgrows.root.look_eq_none fun ⟨⟨content, hfile⟩, _⟩ => ?_
    exact ⟨content, hgrows.root.at?_eq_file hfile⟩

/-- a write that breaks off behind the first bytes of the template -/
def BreaksOff (d : Disk) (new : List String) (content : Text.Bytes) : Prop :=
  ∃ written e, d.faults.writing new = some (.broken written e) ∧
    content = (Text.encode template).take written

/-- what the directories of the output and the write bring to a disk -/
theorem write_brings {d d' : Disk} (hd : d.Stands) {output : Path} {fault : Option FileError}
    (hexists : d.pathExists output = false) (hparent : (makeParent d output).2 = none)
    (h : (makeParent d output).1.write output (Text.encode template) = (d', fault)) :
    (fault = none ∧ ∃ new, BringsFile d d' output (Text.encode template) new) ∨
      fault ≠ none ∧ (d' = (makeParent d output).1 ∨
        ∃ new content, BreaksOff d new content ∧
          (makeParent d output).1.WritesTo d' output content new) := by
  have hgrows := makeParent_grows hd output
  rcases write_spec (hgrows.stands hd) output (Text.encode template) with
    ⟨e, hnothing⟩ | ⟨d'', names, kept, fault', hwrite, hleaves, hwrites⟩
  · rw [hnothing] at h
    cases h
    exact .inr ⟨nofun, .inl rfl⟩
  · rw [hwrite] at h
    cases h
    cases hleaves with
    | all => exact .inl ⟨rfl, names, bringsFile_of_write hd hexists hparent hwrites⟩
    | part hbroken =>
      rw [hgrows.faults] at hbroken
      exact .inr ⟨nofun, .inr ⟨names, _, ⟨_, _, hbroken, rfl⟩, hwrites⟩⟩

/-- **What was there stays.**  The command fails and makes directories at most, unless the write
breaks off; or it succeeds, and then one file is there with the template in it, to which the path
leads, and new directories.  A file that is left by a broken write holds the beginning of the
template and is new where one that holds all of it would be. -/
theorem run_keeps (d : Disk) (hd : d.Stands) (output : Path) :
    ((run d output).1.exitCode = 0 ∨ (run d output).1.exitCode = 2) ∧
    ((run d output).1.exitCode = 2 → d.GrowsTo (run d output).2 ∨
      ∃ new content, BreaksOff d new content ∧
        BringsFile d (run d output).2 output content new) ∧
    ((run d output).1.exitCode = 0 →
      ∃ new, BringsFile d (run d output).2 output (Text.encode template) new ∧
        run (run d output).2 output =
          (.failure "" (.outputExists output), (run d output).2)) := by
  have hgrows := makeParent_grows hd output
  rcases run_cases d output with
    ⟨-, hrun⟩ | ⟨hexists, ⟨e, -, hrun⟩ | ⟨hparent, d', fault, hwrite, hrun⟩⟩ <;> rw [hrun]
  · exact ⟨.inr rfl, fun _ => .inl (.refl d), nofun⟩
  · exact ⟨.inr rfl, fun _ => .inl hgrows, nofun⟩
  · rcases write_brings hd hexists hparent hwrite with ⟨rfl, new, hbrings⟩ | ⟨hfault, hleft⟩
    · refine ⟨.inl rfl, nofun, fun _ => ⟨new, hbrings, ?_⟩⟩
      have hagain := pathExists_of_locate hbrings.locate (by rw [hbrings.file]; rfl)
      rw [run, if_pos hagain]
    · obtain ⟨e, rfl⟩ := Option.ne_none_iff_exists'.mp hfault
      refine ⟨.inr rfl, fun _ => ?_, nofun⟩
      rcases hleft with rfl | ⟨new, content, hbreaks, hwrites⟩
      · exact .inl hgrows
      · exact .inr ⟨new, content, hbreaks, bringsFile_of_write hd hexists hparent hwrites⟩

/-- a directory that is reached through a link -/
def linkedDisk : Disk where
  root := .dir [("conf", .link "sub/etc"), ("sub", .dir [("etc", .dir [])])]
  cwd := []

def linkedOutput : Path := ⟨"conf/../new/c.yaml"⟩

theorem linkedOutput_steps :
    linkedOutput.steps = [.name "conf", .up, .name "new", .name "c.yaml"] := by
  decide +kernel

theorem linkedDisk_hasStepsUp : linkedDisk.HasStepsUp linkedOutput := by
  rintro above ⟨more, hmore⟩
  rw [linkedOutput_steps] at hmore
  cases above with
  | nil => simp at hmore
  | cons first above =>
    cases above with
    | nil =>
      obtain rfl : first = .name "conf" := (List.cons.inj hmore).1
      exact ⟨["sub", "etc"], rfl⟩
    | cons second above =>
      -- behind the second step there is no step up
      have htail : above ++ [.up] ++ more = [.name "new", .name "c.yaml"] :=
        (List.cons.inj (List.cons.inj hmore).2).2
      have hup : Path.Step.up ∈ [Path.Step.name "new", .name "c.yaml"] := by
        rw [← htail]
        simp
      simp at hup

theorem run_keeps_linked :
    linkedDisk.Stands ∧ (run linkedDisk linkedOutput).1.exitCode = 0 ∧
      ∃ new, (run linkedDisk linkedOutput).2.locate linkedOutput = .ok (.found new) ∧
        linkedDisk.root.look new = none ∧
        (run (run linkedDisk linkedOutput).2 linkedOutput).1.exitCode = 2 := by
  have hstands : linkedDisk.Stands := rfl
  have hexit : (run linkedDisk linkedOutput).1.exitCode = 0 := by decide +kernel
  obtain ⟨new, hbrings, hagain⟩ := (run_keeps linkedDisk hstands linkedOutput).2.2 hexit
  refine ⟨hstands, hexit, new, hbrings.locate, hbrings.fresh linkedDisk_hasStepsUp, ?_⟩
  rw [hagain]
  rfl

def fileDisk : Disk where
  root := .dir [("b", .file (Text.encode "x"))]
  cwd := []

/-- the step up is from a directory that is missing until the command makes it -/
theorem run_overwrites :
    fileDisk.Stands ∧ (run fileDisk ⟨"a/../b"⟩).1.exitCode = 0 ∧
      fileDisk.root.look ["b"] = some (.file (Text.encode "x")) ∧
        (run fileDisk ⟨"a/../b"⟩).2.root.look ["b"] ≠ fileDisk.root.look ["b"] := by
  have hafter : (run fileDisk ⟨"a/../b"⟩).2.root.look ["b"] =
      some (.file (Text.encode template)) := rfl
  refine ⟨rfl, by decide +kernel, rfl, fun heq => ?_⟩
  have hcontent : Text.encode template = Text.encode "x" :=
    FileTree.file.inj (Option.some.inj (hafter.symm.trans heq))
  exact absurd (Text.encode_injective hcontent) (by decide +kernel)

end Init

end VersionFloor
