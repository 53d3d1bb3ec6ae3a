import VersionFloor.Proofs.Data.Json.Layout
import VersionFloor.Proofs.Data.Record
import VersionFloor.Report.Summary
import VersionFloor.Report.Tally

/-!
# Reports: what is printed is read back

Each record of a summary reads as what it was made of (`Summary.reads`), and a summary whose count
is a machine word can be written out as a text (`Summary.fits_value`); so the text that is printed
of a report gives its summary again (`Report.read?_write_summary`).
-/

namespace VersionFloor

open Data

/-! ### records read as what they were made of -/

theorem ExtensionSummary.reads : Value.Reads value ofValue? where
  read e := by
    rw [value, ofValue?, Fields.need?_of_named Value.reads_text (a := e.name) (by simp),
      Fields.may?_of_named Value.reads_text (a := e.required) (by simp)]
    rfl
  null := rfl

theorem SkipSummary.reads : Value.Reads value ofValue? where
  read s := by
    rw [value, ofValue?, Fields.need?_of_named Value.reads_text (a := s.path) (by simp),
      Fields.need?_of_named Value.reads_text (a := s.reason) (by simp)]
    rfl
  null := rfl

theorem Summary.reads : Value.Reads value ofValue? where
  read s := by
    have htexts := Value.reads_text.list
    rw [value, ofValue?, Fields.need?_of_named Value.reads_text (a := s.version) (by simp),
      Fields.need?_of_named Value.reads_text (a := s.path) (by simp),
      Fields.need?_of_named Value.reads_text (a := s.catalog) (by simp),
      Fields.need?_of_named Value.reads_text (a := s.required) (by simp),
      Fields.need?_of_named htexts (a := s.functions) (by simp [Value.texts]),
      Fields.need?_of_named htexts (a := s.classes) (by simp [Value.texts]),
      Fields.need?_of_named ExtensionSummary.reads.list (a := s.extensions) (by simp),
      Fields.may?_of_named Value.reads_text (a := s.warning) (by simp),
      Fields.items?_of_named Value.reads_text (l := s.unversioned) (by simp),
      Fields.need?_of_named Value.reads_natural (a := s.scanned) (by simp),
      Fields.items?_of_named SkipSummary.reads (l := s.skipped) (by simp),
      Fields.may?_of_named Value.reads_text (a := s.target) (by simp),
      Fields.need?_of_named Value.reads_bool (a := s.passed) (by simp)]
    rfl
  null := rfl

/-! ### summaries can be written out -/

section

open Json

variable (room : Nat) (name : String)

theorem fitFields_append (fs gs : Fields) :
    fitFields room (fs ++ gs) = (fitFields room fs && fitFields room gs) := by
  induction fs with
  | nil => rfl
  | cons f fs ih =>
    obtain ⟨k, v⟩ := f
    rw [List.cons_append, fitFields, fitFields, ih, Bool.and_assoc (isKey k && fits room v)]

theorem fitFields_one (v : Value) : fitFields room (Fields.one name v) = fits room v := by
  rw [Fields.one, fitFields, fitFields, Bool.and_true]
  rfl

theorem fitFields_given_text (s : Option String) :
    fitFields room (Fields.given name (s.map .text)) = true := by
  cases s with
  | none => rfl
  | some s => exact fitFields_one room name (.text s)

theorem fitFields_unlessEmpty {items : List Value} (h : ∀ v ∈ items, fits room v = true) :
    fitFields (room + 1) (Fields.unlessEmpty name items) = true := by
  rw [Fields.unlessEmpty]
  split
  · rfl
  · rw [fitFields_one]
    exact fits_list h

theorem fits_texts (ss : List String) : ∀ v ∈ ss.map Value.text, fits room v = true := by
  intro v hv
  obtain ⟨s, -, rfl⟩ := List.mem_map.mp hv
  rfl

theorem ExtensionSummary.fits_value (e : ExtensionSummary) : fits (room + 1) e.value = true := by
  rw [value, fits_succ_record, fitFields_append, fitFields_one, fitFields_given_text]
  rfl

theorem SkipSummary.fits_value (s : SkipSummary) : fits (room + 1) s.value = true := by
  rw [value, fits_succ_record, fitFields_append, fitFields_one, fitFields_one]
  rfl

theorem Summary.fits_value {s : Summary} (h : s.scanned ≤ largestWord) :
    fits (room + 3) s.value = true := by
  have hextensions : ∀ v ∈ s.extensions.map (·.value), fits (room + 1) v = true := by
    intro v hv
    obtain ⟨e, -, rfl⟩ := List.mem_map.mp hv
    exact e.fits_value room
  have hskipped : ∀ v ∈ s.skipped.map (·.value), fits (room + 1) v = true := by
    intro v hv
    obtain ⟨s, -, rfl⟩ := List.mem_map.mp hv
    exact s.fits_value room
  have hcount : fits (room + 2) (.number (.natural s.scanned)) = true := decide_eq_true h
  rw [value, fits_succ_record]
  simp only [fitFields_append, fitFields_one, fitFields_given_text,
    fitFields_unlessEmpty _ _ hskipped, fitFields_unlessEmpty _ _ (fits_texts _ _),
    Value.texts, fits_list (fits_texts _ _), fits_list hextensions, hcount]
  rfl

end

/-! ### what is printed -/

/-- **A summary that is printed is read back**, each field as it was. -/
theorem Summary.read?_write {s : Summary} (h : s.scanned ≤ Json.largestWord) :
    read? (s.write ++ "\n") = some s := by
  rw [read?, write, Json.read?_of_writes (Json.writes_pretty_append (fits_value 124 h)),
    Option.bind_some, reads.read]

/-- **Nothing is lost when a report is printed.**  The text gives the summary again that was made of
the report, as long as the count of its files is a machine word. -/
theorem Report.read?_write_summary (r : Report) (h : r.scanned < 2 ^ 64) (path catalog : String)
    (target : Option Version) :
    Summary.read? ((r.summary path catalog target).write ++ "\n") =
      some (r.summary path catalog target) :=
  Summary.read?_write (Nat.le_of_lt_succ h)

/-- names, versions and reasons that cannot stand in a text as they are -/
def awkward : Tally :=
  let quoted := (Symbol.free "quote\"\\" none).inExtension "\u0001\n" none
  let foreign := (Symbol.free "\u2028é" (some "8.1\t-")).inExtension "zip" (some "7.4")
  let skip : Skip := ⟨⟨"a\rb"⟩, "\u007f and 😀"⟩
  (((Tally.empty.record quoted).record foreign).fileScanned).fileSkipped skip

theorem read?_write_summary_awkward :
    awkward.report.scanned < 2 ^ 64 ∧
      Summary.read? ((awkward.report.summary "a b" "\\" (Version.parse? "8")).write ++ "\n") =
        some (awkward.report.summary "a b" "\\" (Version.parse? "8")) := by
  have hcount : awkward.report.scanned < 2 ^ 64 := by decide
  exact ⟨hcount, awkward.report.read?_write_summary hcount _ _ _⟩

end VersionFloor
