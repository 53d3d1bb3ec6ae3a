import VersionFloor.Proofs.Check.Meaning
import VersionFloor.Proofs.Check.Parallel
import VersionFloor.Proofs.Tally.WellFormed

/-!
# Checks: the books

Every file that a walk comes to is either read and counted or skipped, and one that is skipped
leaves nothing but its skip; what the walk cannot list is skipped too.  So the files counted and the
skips of a report add up to all that the walk came to, whoever scanned it and in whatever order
(`scan_accounts`).
-/

namespace VersionFloor.Check

open Tally Text

variable {c : Check} {disk : Disk}

/-! ### one file -/

/-- the skip of a file that cannot be read -/
def unread? (disk : Disk) (path : Path) : Option Skip :=
  match disk.read path with
  | .error e => some ⟨path, e.message⟩
  | .ok _ => none

theorem unread?_isSome (disk : Disk) (path : Path) :
    (unread? disk path).isSome = !isReadable disk path := by
  unfold unread? isReadable
  cases disk.read path <;> rfl

theorem exists_read_of_isReadable {path : Path} (h : isReadable disk path = true) :
    ∃ bytes, disk.read path = .ok bytes := by
  rw [isReadable] at h
  cases hread : disk.read path with
  | ok bytes => exact ⟨bytes, rfl⟩
  | error e =>
    rw [hread] at h
    cases h

theorem isReadable_or_error (disk : Disk) (path : Path) :
    isReadable disk path = true ∨ ∃ e, disk.read path = .error e := by
  unfold isReadable
  cases disk.read path with
  | ok bytes => exact .inl rfl
  | error e => exact .inr ⟨e, rfl⟩

/-- symbols that are recorded are not entered in the books -/
theorem books_foldl_record (ss : List Symbol) (t : Tally) :
    (ss.foldl Tally.record t).scanned = t.scanned ∧
      (ss.foldl Tally.record t).skipped = t.skipped := by
  induction ss generalizing t with
  | nil => exact ⟨rfl, rfl⟩
  | cons s ss ih => exact ih (t.record s)

theorem scanFile_of_error {path : Path} {e : FileError} (h : disk.read path = .error e)
    (t : Tally) :
    c.scanFile disk t path = { t with skipped := t.skipped ++ [⟨path, e.message⟩] } := by
  rw [scanFile, h]
  rfl

/-- a file that can be read is counted, and no skip comes of it -/
theorem books_scanFile {path : Path} (h : isReadable disk path = true) (t : Tally) :
    (c.scanFile disk t path).scanned = t.scanned + 1 ∧
      (c.scanFile disk t path).skipped = t.skipped := by
  obtain ⟨bytes, hread⟩ := exists_read_of_isReadable h
  rw [scanFile, hread]
  exact books_foldl_record (c.matched (decodeLossy bytes)) t.fileScanned

/-! ### all files -/

theorem skips_fileEvents (c : Check) (disk : Disk) (path : Path) :
    skips (c.fileEvents disk path) = (unread? disk path).toList := by
  unfold fileEvents unread?
  cases disk.read path with
  | error e => rfl
  | ok bytes =>
    have hused : skips ((c.matched (decodeLossy bytes)).map .used) = [] := by
      rw [skips, List.filterMap_map]
      exact List.filterMap_eq_nil_iff.mpr fun s _ => rfl
    exact hused

theorem skips_flatMap_fileEvents (c : Check) (disk : Disk) (files : List Path) :
    skips (files.flatMap (c.fileEvents disk)) = files.filterMap (unread? disk) := by
  induction files with
  | nil => rfl
  | cons path files ih =>
    have happend : skips (c.fileEvents disk path ++ files.flatMap (c.fileEvents disk)) =
        skips (c.fileEvents disk path) ++ skips (files.flatMap (c.fileEvents disk)) :=
      List.filterMap_append
    rw [List.flatMap_cons, happend, ih, skips_fileEvents, List.filterMap_cons]
    cases unread? disk path <;> rfl

theorem skips_map_skipped (ss : List Skip) : skips (ss.map .skipped) = ss := by
  rw [skips, List.filterMap_map]
  exact List.filterMap_some

/-- every file is read or skipped -/
theorem countP_isReadable_add_length (disk : Disk) (files : List Path) :
    files.countP (isReadable disk) + (files.filterMap (unread? disk)).length = files.length := by
  have hunread : files.countP (fun path => (unread? disk path).isSome) =
      files.countP fun path => ¬isReadable disk path :=
    List.countP_congr fun path _ => by rw [unread?_isSome]; simp
  rw [List.length_filterMap_eq_countP, hunread, ← List.length_eq_countP_add_countP]

/-! ### runs -/

/-- the report of a check whose walk comes to these places, and cannot list some of them -/
def reportOn (c : Check) (pool : List Path → Except CheckError Tally) (disk : Disk)
    (found : List Found) : Except CheckError Report :=
  (c.scan pool disk found).map fun x => (x.2.foldl Tally.fileSkipped x.1).report

theorem runWith_eq_reportOn (c : Check) (pool : List Path → Except CheckError Tally) (disk : Disk)
    (root : Path) :
    c.runWith pool disk root =
      (discover disk root c.selection).bind fun d => c.reportOn pool disk (d.walk disk) := by
  rw [runWith]
  cases discover disk root c.selection with
  | error e => rfl
  | ok d =>
    show (c.scan pool disk (d.walk disk)).bind _ = c.reportOn pool disk (d.walk disk)
    rw [reportOn]
    cases c.scan pool disk (d.walk disk) <;> rfl

section

variable {pool : List Path → Except CheckError Tally} (hpool : c.IsPool disk pool)

include hpool

theorem reportOn_eq_ok {found : List Found} {r : Report} (h : c.reportOn pool disk found = .ok r) :
    r = (ofEvents ((found.filterMap Found.path?).flatMap (c.fileEvents disk) ++
      (found.filterMap Found.skip?).map .skipped)).report := by
  rw [reportOn, scan_eq hpool] at h
  cases hscan : c.scanOutcome disk (found.filterMap Found.path?) with
  | error e =>
    rw [hscan] at h
    cases h
  | ok t =>
    rw [hscan] at h
    have hr : r = ((found.filterMap Found.skip?).foldl Tally.fileSkipped t).report :=
      (Except.ok.inj h).symm
    rw [hr, scanOutcome_eq_ok hscan, foldl_fileSkipped_eq, ofEvents, ofEvents, List.foldl_append]

/-- what a report counts, and what it lists as skipped -/
theorem books_of_reportOn {found : List Found} {r : Report}
    (h : c.reportOn pool disk found = .ok r) :
    r.scanned = (found.filterMap Found.path?).countP (isReadable disk) ∧
      r.skipped.Perm ((found.filterMap Found.path?).filterMap (unread? disk) ++
        found.filterMap Found.skip?) := by
  have hr := reportOn_eq_ok hpool h
  constructor
  · rw [hr]
    show (ofEvents _).scanned = _
    rw [scanned_ofEvents, List.countP_append, countP_isScanned_map (fun _ => rfl), Nat.add_zero,
      countP_flatMap_fileEvents]
  · have hskips : skips ((found.filterMap Found.path?).flatMap (c.fileEvents disk) ++
        (found.filterMap Found.skip?).map .skipped) =
          (found.filterMap Found.path?).filterMap (unread? disk) ++
            found.filterMap Found.skip? := by
      rw [skips, List.filterMap_append]
      exact congrArg₂ _ (skips_flatMap_fileEvents ..) (skips_map_skipped _)
    rw [hr, ← hskips, ← skipped_ofEvents]
    exact List.mergeSort_perm _ _

/-- nothing that a walk comes to is lost, and nothing is entered twice -/
theorem balance_of_reportOn {found : List Found} {r : Report}
    (h : c.reportOn pool disk found = .ok r) :
    r.scanned + r.skipped.length =
      (found.filterMap Found.path?).length + (found.filterMap Found.skip?).length := by
  obtain ⟨hscanned, hskipped⟩ := books_of_reportOn hpool h
  rw [hscanned, hskipped.length_eq, List.length_append, ← Nat.add_assoc,
    countP_isReadable_add_length]

end

/-! ### the same file again -/

/-- symbols that were recorded count no more, whatever happened since -/
theorem foldl_record_of_mem {es : List Event} {ss : List Symbol} (h : ∀ s ∈ ss, Event.used s ∈ es)
    (t : Tally) : ss.foldl Tally.record (es.foldl Tally.step t) = es.foldl Tally.step t := by
  induction ss with
  | nil => rfl
  | cons s ss ih =>
    obtain ⟨hs, hss⟩ := List.forall_mem_cons.mp h
    rw [List.foldl_cons, record_of_mem hs, ih hss]

/-- a file that was scanned before is only counted -/
theorem scanFile_scanFile {disk' : Disk} {path : Path} (h : isReadable disk path = true)
    (hsame : disk'.read path = disk.read path) (t : Tally) (es : List Event) :
    c.scanFile disk' (es.foldl Tally.step (c.scanFile disk t path)) path =
      (es.foldl Tally.step (c.scanFile disk t path)).fileScanned := by
  obtain ⟨bytes, hread⟩ := exists_read_of_isReadable h
  have hall : es.foldl Tally.step (c.scanFile disk t path) =
      (c.fileEvents disk path ++ es).foldl Tally.step t := by
    rw [scanFile_eq, List.foldl_append]
  -- all that the second scan records was recorded by the first
  have hused : ∀ s ∈ c.matched (decodeLossy bytes),
      Event.used s ∈ c.fileEvents disk path ++ es ++ [Event.scanned] := fun s hs =>
    List.mem_append_left _ (List.mem_append_left _ ((used_mem_fileEvents ..).mpr ⟨bytes, hread, hs⟩))
  have hcounted : ((c.fileEvents disk path ++ es).foldl Tally.step t).fileScanned =
      (c.fileEvents disk path ++ es ++ [Event.scanned]).foldl Tally.step t := by
    rw [List.foldl_concat]
    rfl
  rw [hall, scanFile, hsame, hread, hcounted]
  exact foldl_record_of_mem hused t

/-- **Every file is accounted for once.**  A file is either counted or skipped, and a skip leaves
all else as it is; so in a report the files counted and the skips are those that the walk came to,
for any workers.  A file that is scanned again changes the books only. -/
theorem scan_accounts (c : Check) (disk : Disk) (pool : List Path → Except CheckError Tally)
    (hpool : c.IsPool disk pool) :
    (∀ (t : Tally) (path : Path),
      (isReadable disk path = true ∧ (c.scanFile disk t path).scanned = t.scanned + 1 ∧
        (c.scanFile disk t path).skipped = t.skipped) ∨
      ∃ e, disk.read path = .error e ∧
        c.scanFile disk t path = { t with skipped := t.skipped ++ [⟨path, e.message⟩] }) ∧
    (∀ found r, c.reportOn pool disk found = .ok r →
      r.scanned = (found.filterMap Found.path?).countP (isReadable disk) ∧
      r.skipped.Perm ((found.filterMap Found.path?).filterMap (unread? disk) ++
        found.filterMap Found.skip?) ∧
      r.scanned + r.skipped.length =
        (found.filterMap Found.path?).length + (found.filterMap Found.skip?).length) ∧
    (∀ root r, c.runWith pool disk root = .ok r →
      ∃ d, discover disk root c.selection = .ok d ∧
        c.reportOn pool disk (d.walk disk) = .ok r ∧
        r.scanned + r.skipped.length = (d.files disk).length + (d.unlisted disk).length) ∧
    ∀ (disk' : Disk) (t : Tally) (path : Path) (es : List Event), disk'.read path = disk.read path →
      let u := es.foldl Tally.step (c.scanFile disk t path)
      (isReadable disk path = true ∧
        c.scanFile disk' u path = { u with scanned := u.scanned + 1 }) ∨
      ∃ e, disk.read path = .error e ∧
        c.scanFile disk' u path = { u with skipped := u.skipped ++ [⟨path, e.message⟩] } := by
  refine ⟨fun t path => ?_, fun found r h => ?_, fun root r h => ?_, fun disk' t path es hsame => ?_⟩
  · rcases isReadable_or_error disk path with hread | ⟨e, he⟩
    · exact .inl ⟨hread, books_scanFile hread t⟩
    · exact .inr ⟨e, he, scanFile_of_error he t⟩
  · obtain ⟨hscanned, hskipped⟩ := books_of_reportOn hpool h
    exact ⟨hscanned, hskipped, balance_of_reportOn hpool h⟩
  · rw [runWith_eq_reportOn] at h
    cases hd : discover disk root c.selection with
    | error e =>
      rw [hd] at h
      cases h
    | ok d =>
      rw [hd] at h
      exact ⟨d, rfl, h, balance_of_reportOn hpool h⟩
  · rcases isReadable_or_error disk path with hread | ⟨e, he⟩
    · exact .inl ⟨hread, scanFile_scanFile hread hsame t es⟩
    · exact .inr ⟨e, he, scanFile_of_error (hsame.trans he) _⟩

/-- a check with workers -/
def strlenParallel : Check :=
  { plain (.ofSymbols [.free "strlen" (some "4")]) with parallel := true }

/-- a file that is there, a directory that cannot be listed, and a file that is gone -/
def foundGone : List Found :=
  [.file ⟨"a.php"⟩, .unlisted ⟨⟨"/work/lib"⟩, "unreadable"⟩, .file ⟨"gone.php"⟩]

theorem scan_accounts_gone :
    let pool := strlenParallel.halvesPool oneFile
    ∃ r, strlenParallel.IsPool oneFile pool ∧
      strlenParallel.reportOn pool oneFile foundGone = .ok r ∧ r.functions = ["strlen"] ∧
      r.scanned = 1 ∧ r.scanned + r.skipped.length = 3 := by
  intro pool
  have hpool := isPool_halvesPool strlenParallel oneFile
  have hany : (strlenParallel.reportOn (strlenParallel.halvesPool oneFile) oneFile
      foundGone).toOption.any (fun r => r.functions == ["strlen"] && r.scanned == 1) = true := by
    decide +kernel
  obtain ⟨r, hr, htest⟩ := exists_ok_of_any hany
  rw [Bool.and_eq_true, beq_iff_eq, beq_iff_eq] at htest
  obtain ⟨-, hruns, -⟩ := scan_accounts strlenParallel oneFile pool hpool
  obtain ⟨-, -, hbalance⟩ := hruns foundGone r hr
  exact ⟨r, hpool, hr, htest.1, htest.2, hbalance⟩

end VersionFloor.Check
