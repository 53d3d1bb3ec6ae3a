import VersionFloor.Proofs.Check.Scan

/-!
# Checks: workers beside each other

Workers may split the files wherever they like and join what they find in any tree: the report, or
the error, is that of a check that takes the files in turn (`runWith_parallel`).
-/

namespace VersionFloor.Check

open Text

/-- when a check is to stop, a deadline gives way to a cancellation -/
theorem checkpoint_of_stopped {c : Check} (h : c.cancelled = true ∨ c.expired = true) :
    c.checkpoint = .error (if c.cancelled then .cancelled else .deadlineExceeded) := by
  unfold checkpoint
  cases hc : c.cancelled with
  | true => rfl
  | false =>
    have he : c.expired = true := h.resolve_left (by rw [hc]; decide)
    rw [he]
    rfl

/-- a check that is to stop comes to its end only where there is no file -/
theorem outcome_of_stopped {c : Check} (h : c.cancelled = true ∨ c.expired = true) (disk : Disk)
    (d : Discovery) :
    c.outcome disk d =
      if (d.files disk).isEmpty then .ok ((d.unlisted disk).foldl Tally.fileSkipped ∅).report
      else .error (if c.cancelled then .cancelled else .deadlineExceeded) := by
  rw [outcome, scanOutcome, checkpoint_of_stopped h]
  cases (d.files disk).isEmpty with
  | true =>
    rw [foldl_fileSkipped_eq]
    rfl
  | false => rfl

/-- **Parallel checks report what checks in turn report**, for any workers; and when a check is
cancelled or late from the start, both fail at the first file that there is. -/
theorem runWith_parallel (c : Check) (disk : Disk) (root : Path)
    (pool : List Path → Except CheckError Tally) (hpool : c.IsPool disk pool) :
    ({ c with parallel := true } : Check).runWith pool disk root =
        ({ c with parallel := false } : Check).run disk root ∧
      (c.cancelled = true ∨ c.expired = true →
        ∀ d, discover disk root c.selection = .ok d →
          ({ c with parallel := false } : Check).run disk root =
            if (d.files disk).isEmpty then .ok ((d.unlisted disk).foldl Tally.fileSkipped ∅).report
            else .error (if c.cancelled then .cancelled else .deadlineExceeded)) := by
  have hrun : ({ c with parallel := false } : Check).run disk root =
      (discover disk root c.selection).bind (c.outcome disk) := run_eq _ disk root
  have hpool' : ({ c with parallel := true } : Check).IsPool disk pool := hpool
  have hpar : ({ c with parallel := true } : Check).runWith pool disk root =
      (discover disk root c.selection).bind (c.outcome disk) := runWith_eq hpool' root
  refine ⟨hpar.trans hrun.symm, fun hstop d hd => ?_⟩
  rw [hrun, hd]
  exact outcome_of_stopped hstop disk d

/-- a source file in a directory of its own -/
def oneFile : Disk :=
  (Disk.bare ["work"]).put ⟨"a.php"⟩ (.file (encode "<?php strlen($s);"))

/-- a check that is both cancelled and late is cancelled, with workers or without -/
theorem runWith_parallel_cancelled :
    let c : Check := { plain (.ofSymbols []) with cancelled := true, expired := true }
    c.IsPool oneFile (c.halvesPool oneFile) ∧
      ({ c with parallel := true } : Check).runWith (c.halvesPool oneFile) oneFile ⟨"."⟩ =
        .error .cancelled ∧
      ({ c with parallel := false } : Check).run oneFile ⟨"."⟩ = .error .cancelled := by
  intro c
  have hpool := isPool_halvesPool c oneFile
  obtain ⟨hsame, hstop⟩ := runWith_parallel c oneFile ⟨"."⟩ _ hpool
  have hfile : (discover oneFile ⟨"."⟩ c.selection).toOption.any
      (fun d => !(d.files oneFile).isEmpty) = true := by decide +kernel
  obtain ⟨d, hd, hne⟩ := exists_ok_of_any hfile
  have hrun := hstop (.inl rfl) d hd
  rw [Bool.not_eq_true'] at hne
  rw [hne] at hrun
  exact ⟨hpool, hsame.trans hrun, hrun⟩

end VersionFloor.Check
