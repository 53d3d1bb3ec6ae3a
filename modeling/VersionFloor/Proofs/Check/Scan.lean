import VersionFloor.Check.Run
import VersionFloor.Proofs.Tally.Merge

/-!
# Checks: what one makes of its files

Every file stands for a list of events (`fileEvents`), and a scan either stops at its first file or
tallies the events of all of them (`scanOutcome`).  That is so for files taken in turn and for every
way in which a pool of workers may share them, so a run is known by its root and the events below it
(`runWith_eq`).
-/

namespace VersionFloor

open Text Tally

/-! ### workers -/

namespace Plan

variable {α σ ε : Type}

/-- What workers may make of a plan.  A chunk is folded from the start, and what the parts give is
joined; when a part fails the whole fails with its error, and the other part may stay undone. -/
inductive Yields (start : σ) (step : σ → α → Except ε σ) (join : σ → σ → σ) :
    Plan α → Except ε σ → Prop
  | chunk (xs : List α) : Yields start step join (.chunk xs) (xs.foldlM step start)
  | both {l r : Plan α} {a b : σ} (hl : Yields start step join l (.ok a))
      (hr : Yields start step join r (.ok b)) : Yields start step join (.both l r) (.ok (join a b))
  | left {l r : Plan α} {e : ε} (hl : Yields start step join l (.error e)) :
      Yields start step join (.both l r) (.error e)
  | right {l r : Plan α} {e : ε} (hr : Yields start step join r (.error e)) :
      Yields start step join (.both l r) (.error e)

theorem yields_fold (start : σ) (step : σ → α → Except ε σ) (join : σ → σ → σ) (p : Plan α) :
    p.Yields start step join (p.fold start step join) := by
  induction p with
  | chunk xs => exact .chunk xs
  | both l r ihl ihr =>
    rw [fold]
    cases hl : l.fold start step join with
    | error e => exact .left (hl ▸ ihl)
    | ok a =>
      cases hr : r.fold start step join with
      | error e => exact .right (hr ▸ ihr)
      | ok b => exact .both (hl ▸ ihl) (hr ▸ ihr)

end Plan

namespace Check

variable {c : Check} {disk : Disk}

/-- workers that split the files into chunks, wherever, and join the tallies, in whatever tree -/
def IsPool (c : Check) (disk : Disk) (pool : List Path → Except CheckError Tally) : Prop :=
  ∀ files, ∃ p : Plan Path, p.items = files ∧ p.Yields ∅ (c.step disk) Tally.merge (pool files)

theorem isPool_halvesPool (c : Check) (disk : Disk) : c.IsPool disk (c.halvesPool disk) :=
  fun files => ⟨.halves planDepth files, Plan.items_halves planDepth files,
    Plan.yields_fold ∅ (c.step disk) Tally.merge (.halves planDepth files)⟩

/-- a result that passes a test is there -/
theorem exists_ok_of_any {ε α : Type} {x : Except ε α} {p : α → Bool}
    (h : x.toOption.any p = true) : ∃ a, x = .ok a ∧ p a = true := by
  cases x with
  | error e => cases h
  | ok a => exact ⟨a, rfl, h⟩

/-! ### files as events -/

/-- what reading a file does to a tally -/
def fileEvents (c : Check) (disk : Disk) (path : Path) : List Event :=
  match disk.read path with
  | .error e => [.skipped ⟨path, e.message⟩]
  | .ok bytes => .scanned :: (c.matched (decodeLossy bytes)).map .used

theorem foldl_record_eq (ss : List Symbol) (t : Tally) :
    ss.foldl Tally.record t = (ss.map Event.used).foldl Tally.step t := by
  rw [List.foldl_map]
  rfl

theorem scanFile_eq (c : Check) (disk : Disk) (t : Tally) (path : Path) :
    c.scanFile disk t path = (c.fileEvents disk path).foldl Tally.step t := by
  unfold scanFile fileEvents
  cases disk.read path with
  | error e => rfl
  | ok bytes => exact foldl_record_eq _ _

/-- a scan of these files: nothing is read once the check is to stop -/
def scanOutcome (c : Check) (disk : Disk) (files : List Path) : Except CheckError Tally :=
  match c.checkpoint with
  | .error e => if files.isEmpty then .ok ∅ else .error e
  | .ok _ => .ok (ofEvents (files.flatMap (c.fileEvents disk)))

theorem step_of_error {e : CheckError} (h : c.checkpoint = .error e) (t : Tally) (path : Path) :
    c.step disk t path = .error e := by
  rw [step, h]
  rfl

theorem step_of_ok (h : c.checkpoint = .ok ()) (t : Tally) (path : Path) :
    c.step disk t path = .ok ((c.fileEvents disk path).foldl Tally.step t) := by
  rw [step, h, ← scanFile_eq]
  rfl

theorem foldlM_step_of_ok (h : c.checkpoint = .ok ()) (files : List Path) (t : Tally) :
    files.foldlM (c.step disk) t =
      .ok ((files.flatMap (c.fileEvents disk)).foldl Tally.step t) := by
  induction files generalizing t with
  | nil => rfl
  | cons path files ih =>
    rw [List.foldlM_cons, step_of_ok h, List.flatMap_cons, List.foldl_append]
    exact ih _

/-- files one after the other -/
theorem foldlM_step_eq (c : Check) (disk : Disk) (files : List Path) :
    files.foldlM (c.step disk) ∅ = c.scanOutcome disk files := by
  unfold scanOutcome
  cases h : c.checkpoint with
  | error e =>
    cases files with
    | nil => rfl
    | cons path files =>
      rw [List.foldlM_cons, step_of_error h]
      rfl
  | ok _ => exact foldlM_step_of_ok h files ∅

/-- a scan that comes to its end tallies all files; one that is to stop had none -/
theorem scanOutcome_eq_ok {files : List Path} {t : Tally} (h : c.scanOutcome disk files = .ok t) :
    t = ofEvents (files.flatMap (c.fileEvents disk)) := by
  unfold scanOutcome at h
  cases hc : c.checkpoint with
  | ok _ =>
    simp only [hc] at h
    exact (Except.ok.inj h).symm
  | error e =>
    simp only [hc] at h
    cases files with
    | cons path files => cases h
    | nil => exact (Except.ok.inj h).symm

theorem scanOutcome_append (c : Check) (disk : Disk) (xs ys : List Path) {s t : Tally}
    (hs : c.scanOutcome disk xs = .ok s) (ht : c.scanOutcome disk ys = .ok t) :
    c.scanOutcome disk (xs ++ ys) = .ok (s.merge t) := by
  unfold scanOutcome at hs ht ⊢
  cases h : c.checkpoint with
  | error e =>
    simp only [h] at hs ht
    cases xs with
    | cons x xs => cases hs
    | nil =>
      cases ys with
      | cons y ys => cases ht
      | nil =>
        cases hs
        cases ht
        rw [merge_empty]
        rfl
  | ok _ =>
    simp only [h] at hs ht
    cases hs
    cases ht
    rw [List.flatMap_append, ofEvents_append]

/-- a scan of more files fails in the same way -/
theorem scanOutcome_error_of_append (c : Check) (disk : Disk) (xs ys : List Path) {e : CheckError}
    (h : c.scanOutcome disk xs = .error e ∨ c.scanOutcome disk ys = .error e) :
    c.scanOutcome disk (xs ++ ys) = .error e := by
  unfold scanOutcome at h ⊢
  cases hc : c.checkpoint with
  | ok _ =>
    simp only [hc] at h
    rcases h with h | h <;> cases h
  | error e' =>
    simp only [hc] at h
    cases xs with
    | cons x xs =>
      rcases h with h | h
      · exact h
      · cases ys with
        | nil => cases h
        | cons y ys => exact h
    | nil =>
      rcases h with h | h
      · cases h
      · exact h

/-- a plan comes out like its files one after the other, wherever it is split -/
theorem yields_eq {p : Plan Path} {x : Except CheckError Tally}
    (h : p.Yields ∅ (c.step disk) Tally.merge x) : x = c.scanOutcome disk p.items := by
  induction h with
  | chunk xs => exact foldlM_step_eq c disk xs
  | both _ _ ihl ihr => exact (scanOutcome_append c disk _ _ ihl.symm ihr.symm).symm
  | left _ ih => exact (scanOutcome_error_of_append c disk _ _ (.inl ih.symm)).symm
  | right _ ih => exact (scanOutcome_error_of_append c disk _ _ (.inr ih.symm)).symm

theorem IsPool.eq {pool : List Path → Except CheckError Tally} (h : c.IsPool disk pool)
    (files : List Path) : pool files = c.scanOutcome disk files := by
  obtain ⟨p, hitems, hyields⟩ := h files
  rw [yields_eq hyields, hitems]

/-! ### the run -/

/-- a walk that is scanned as it goes is a scan of its files; what it cannot list waits aside -/
theorem scanInTurn_eq (c : Check) (disk : Disk) (found : List Found) (t : Tally)
    (aside : List Skip) :
    c.scanInTurn disk t aside found =
      ((found.filterMap Found.path?).foldlM (c.step disk) t).map
        fun t => (t, aside ++ found.filterMap Found.skip?) := by
  induction found generalizing t aside with
  | nil =>
    rw [scanInTurn]
    simp [pure, Except.pure, Except.map]
  | cons f rest ih =>
    cases f with
    | file path =>
      show (do c.scanInTurn disk (← c.step disk t path) aside rest) =
        ((path :: rest.filterMap Found.path?).foldlM (c.step disk) t).map
          fun t => (t, aside ++ rest.filterMap Found.skip?)
      rw [List.foldlM_cons]
      cases c.step disk t path with
      | error e => rfl
      | ok t' => exact ih t' aside
    | unlisted s =>
      show c.scanInTurn disk t (aside ++ [s]) rest =
        ((rest.filterMap Found.path?).foldlM (c.step disk) t).map
          fun t => (t, aside ++ ([s] ++ rest.filterMap Found.skip?))
      rw [ih, List.append_assoc]

theorem scan_eq {pool : List Path → Except CheckError Tally} (h : c.IsPool disk pool)
    (found : List Found) :
    c.scan pool disk found =
      (c.scanOutcome disk (found.filterMap Found.path?)).map
        fun t => (t, found.filterMap Found.skip?) := by
  unfold scan
  split
  · show (pool _).bind _ = _
    rw [h.eq]
    rfl
  · rw [scanInTurn_eq, foldlM_step_eq]
    rfl

/-- all events of a check whose walk is ready -/
def events (c : Check) (disk : Disk) (d : Discovery) : List Event :=
  (d.files disk).flatMap (c.fileEvents disk) ++ (d.unlisted disk).map .skipped

/-- what comes of a check whose walk is ready -/
def outcome (c : Check) (disk : Disk) (d : Discovery) : Except CheckError Report :=
  (c.scanOutcome disk (d.files disk)).map fun t =>
    (((d.unlisted disk).map Event.skipped).foldl Tally.step t).report

theorem foldl_fileSkipped_eq (ss : List Skip) (t : Tally) :
    ss.foldl Tally.fileSkipped t = (ss.map Event.skipped).foldl Tally.step t := by
  rw [List.foldl_map]
  rfl

/-- **A run is known by its root and the events below it**, in turn or with any workers. -/
theorem runWith_eq {pool : List Path → Except CheckError Tally} (h : c.IsPool disk pool)
    (root : Path) :
    c.runWith pool disk root = (discover disk root c.selection).bind (c.outcome disk) := by
  unfold runWith
  cases discover disk root c.selection with
  | error e => rfl
  | ok d =>
    show (c.scan pool disk (d.walk disk)).bind _ = c.outcome disk d
    rw [scan_eq h, outcome]
    show _ = (c.scanOutcome disk ((d.walk disk).filterMap Found.path?)).map _
    cases c.scanOutcome disk ((d.walk disk).filterMap Found.path?) with
    | error e => rfl
    | ok t =>
      show Except.ok ((d.unlisted disk).foldl Tally.fileSkipped t).report = Except.ok _
      rw [foldl_fileSkipped_eq]

theorem run_eq (c : Check) (disk : Disk) (root : Path) :
    c.run disk root = (discover disk root c.selection).bind (c.outcome disk) :=
  runWith_eq (isPool_halvesPool c disk) root

/-- a report tells of all events -/
theorem outcome_eq_ok {d : Discovery} {r : Report} (h : c.outcome disk d = .ok r) :
    r = (ofEvents (c.events disk d)).report := by
  rw [outcome] at h
  cases hscan : c.scanOutcome disk (d.files disk) with
  | error e =>
    rw [hscan] at h
    cases h
  | ok t =>
    rw [hscan] at h
    rw [← Except.ok.inj h, scanOutcome_eq_ok hscan]
    exact congrArg Tally.report List.foldl_append.symm

end Check

end VersionFloor
