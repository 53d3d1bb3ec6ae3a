import VersionFloor.Command.Run
import VersionFloor.Proofs.Check.Description
import VersionFloor.Proofs.Data.Record
import VersionFloor.Proofs.Version.Order

/-!
# Commands: what a check leaves behind

The exit code tells whether the command failed, or else whether the report keeps to the target; the
format decides what is printed and nothing else, and the flags for the order of work and for
descriptions decide nothing at all (`run_agrees`).
-/

namespace VersionFloor

open Data

/-- results that agree up to a part of them -/
theorem cases_of_map_eq {ε α β : Type} {f : α → β} {x y : Except ε α} (h : x.map f = y.map f) :
    (∃ e, x = .error e ∧ y = .error e) ∨ ∃ a b, x = .ok a ∧ y = .ok b ∧ f a = f b := by
  cases x with
  | error e =>
    cases y with
    | error e' => exact .inl ⟨e, rfl, congrArg Except.error (Except.error.inj h).symm⟩
    | ok b => cases h
  | ok a =>
    cases y with
    | error e' => cases h
    | ok b => exact .inr ⟨a, b, rfl, rfl, Except.ok.inj h⟩

/-! ### formats -/

namespace OutputFormat

def name : OutputFormat → String
  | pretty => "pretty"
  | json => "json"
  | version => "version"

theorem ofText?_name (f : OutputFormat) : ofText? f.name = some f := by
  cases f <;> decide

theorem ofText?_eq_some {s : String} {f : OutputFormat} (h : ofText? s = some f) : s = f.name := by
  unfold ofText? at h
  split at h
  · cases h
    assumption
  split at h
  · cases h
    assumption
  split at h
  · cases h
    assumption
  · cases h

end OutputFormat

/-! ### the gate -/

theorem Report.passes_eq_false_iff {r : Report} {target : Option Version} :
    r.passes target = false ↔
      ∃ t v, target = some t ∧ r.required = some v ∧ v.IsAbove t := by
  rw [passes, Bool.not_eq_false', Option.any_eq_true]
  constructor
  · rintro ⟨t, ht, h⟩
    obtain ⟨v, hv, h⟩ := (Option.any_eq_true ..).mp h
    exact ⟨t, v, ht, hv, (Version.exceeds_iff v t).mp h⟩
  · rintro ⟨t, v, ht, hv, h⟩
    exact ⟨t, ht, (Option.any_eq_true ..).mpr ⟨v, hv, (Version.exceeds_iff v t).mpr h⟩⟩

/-! ### what the summary says -/

/-- a summary is printed as a record with its verdict and its version in one field each -/
theorem Summary.exists_fields (s : Summary) :
    ∃ fields, s.write = Json.pretty (.record fields) ∧
      Fields.need? "passed" Value.bool? fields = some s.passed ∧
      Fields.need? "required_version" Value.text? fields = some s.required := by
  exact ⟨_, rfl, Fields.need?_of_named Value.reads_bool (by simp),
    Fields.need?_of_named Value.reads_text (by simp)⟩

/-! ### what does not count -/

namespace Config

/-- the settings without those that leave the report as it is -/
def essential (c : Config) : Config := { c with parallel := none, descriptions := none }

end Config

namespace CheckOptions.Prepared

variable (p : Prepared) (color : Bool) (disk : Disk) (project : String)

def essential : Prepared :=
  { p with config := p.config.essential, catalog := p.catalog.withoutDescriptions }

/-- the same check, printed in another format -/
def printedAs (f : OutputFormat) : Prepared := { p with format := f }

/-- what comes of a check that is ready -/
def outcome : Outcome :=
  match p.check.run disk ⟨project⟩ with
  | .error e => .failure p.emptyWarning (.failed e)
  | .ok r =>
    ⟨if r.passes p.config.targetVersion then Outcome.passed else Outcome.exceeded,
      p.output color project r, p.emptyWarning ++ scanWarning r⟩

theorem run_essential (root : Path) : p.essential.check.run disk root = p.check.run disk root := by
  have hcheck : p.essential.check = { p.check.withoutDescriptions with parallel := true } := rfl
  rw [hcheck, Check.run_parallel, Check.run_withoutDescriptions]

theorem outcome_essential :
    p.essential.outcome color disk project = p.outcome color disk project := by
  have hwarning : p.essential.emptyWarning = p.emptyWarning := by
    have hempty : p.essential.catalog.isEmpty = p.catalog.isEmpty := List.isEmpty_map
    rw [emptyWarning, emptyWarning, hempty]
    rfl
  rw [outcome, outcome, run_essential, hwarning]
  rfl

theorem exitCode_printedAs (f : OutputFormat) :
    ((p.printedAs f).outcome color disk project).exitCode =
      (p.outcome color disk project).exitCode := by
  have hrun : (p.printedAs f).check.run disk ⟨project⟩ = p.check.run disk ⟨project⟩ := rfl
  rw [outcome, outcome, hrun]
  cases p.check.run disk ⟨project⟩ <;> rfl

end CheckOptions.Prepared

namespace CheckOptions

open Prepared

variable {color : Bool} {disk : Disk} {o : CheckOptions}

/-! ### stages -/

/-- what is left to prepare when the format and the settings are known -/
def prepareWith (disk : Disk) (format : OutputFormat) (config : Config) :
    Except CommandError Prepared :=
  match config.validate, config.catalog with
  | .error fault, _ => .error (.invalidConfig fault)
  | .ok _, none => .error .noCatalog
  | .ok _, some path =>
    match Catalog.load disk ⟨path⟩ config.keepsDescriptions with
    | .error e => .error (.failed e)
    | .ok catalog => .ok ⟨format, config, ⟨path⟩, catalog⟩

theorem prepare_eq (disk : Disk) (o : CheckOptions) :
    o.prepare disk =
      match OutputFormat.ofText? o.format with
      | none => .error (.invalidFormat o.format)
      | some format => (o.configOf disk).bind (prepareWith disk format) := rfl

theorem run_eq (color : Bool) (disk : Disk) (o : CheckOptions) :
    o.run color disk =
      match o.prepare disk with
      | .error e => .failure "" e
      | .ok p => p.outcome color disk o.project := rfl

theorem prepareWith_eq_ok {format : OutputFormat} {config : Config} {p : Prepared}
    (h : prepareWith disk format config = .ok p) :
    p.format = format ∧ p.config = config ∧ config.validate = .ok () ∧
      config.catalog = some p.catalogPath.text ∧
      Catalog.load disk p.catalogPath config.keepsDescriptions = .ok p.catalog := by
  unfold prepareWith at h
  split at h
  · cases h
  · cases h
  rename_i hvalid hpath
  split at h
  · cases h
  rename_i catalog hcatalog
  cases h
  exact ⟨rfl, rfl, hvalid, hpath, hcatalog⟩

theorem prepareWith_printedAs (disk : Disk) (f g : OutputFormat) (config : Config) :
    prepareWith disk g config = (prepareWith disk f config).map (printedAs · g) := by
  unfold prepareWith
  split
  · rfl
  · rfl
  · split <;> rfl

theorem map_prepareWith_essential (disk : Disk) (f : OutputFormat) {c c' : Config}
    (h : c'.essential = c.essential) :
    (prepareWith disk f c').map Prepared.essential =
      (prepareWith disk f c).map Prepared.essential := by
  have hvalidate : c'.validate = c.validate :=
    show c'.essential.validate = c.essential.validate by rw [h]
  have hcatalog : c'.catalog = c.catalog :=
    show c'.essential.catalog = c.essential.catalog by rw [h]
  unfold prepareWith
  rw [hvalidate, hcatalog]
  split
  · rfl
  · rfl
  · rename_i path _ _
    have hload :=
      Catalog.load_withoutDescriptions disk ⟨path⟩ c'.keepsDescriptions c.keepsDescriptions
    obtain ⟨e, he', he⟩ | ⟨catalog', catalog, hc', hc, hsame⟩ := cases_of_map_eq hload
    · rw [he', he]
    · rw [hc', hc]
      show Except.ok (⟨f, c'.essential, ⟨path⟩, catalog'.withoutDescriptions⟩ : Prepared) =
        Except.ok ⟨f, c.essential, ⟨path⟩, catalog.withoutDescriptions⟩
      rw [h, hsame]

/-! ### failure -/

/-- what has to go well before files are read -/
structure Prepares (disk : Disk) (o : CheckOptions) (p : Prepared) : Prop where
  format : o.format = p.format.name
  settings : o.configOf disk = .ok p.config
  valid : p.config.validate = .ok ()
  path : p.config.catalog = some p.catalogPath.text
  catalog : Catalog.load disk p.catalogPath p.config.keepsDescriptions = .ok p.catalog

/-- a command that comes to a report -/
structure Reports (disk : Disk) (o : CheckOptions) (p : Prepared) (r : Report) : Prop where
  prepares : o.Prepares disk p
  run : p.check.run disk ⟨o.project⟩ = .ok r

/-- the stage at which a command fails -/
inductive Fails (disk : Disk) (o : CheckOptions) : Prop
  | format (h : ∀ f : OutputFormat, o.format ≠ f.name)
  | settings {e : CommandError} (h : o.configOf disk = .error e)
  | invalid {config : Config} {fault : ConfigFault} (hconfig : o.configOf disk = .ok config)
      (h : config.validate = .error fault)
  | noCatalog {config : Config} (hconfig : o.configOf disk = .ok config)
      (h : config.catalog = none)
  | catalog {config : Config} {path : String} {e : CheckError}
      (hconfig : o.configOf disk = .ok config) (hpath : config.catalog = some path)
      (h : Catalog.load disk ⟨path⟩ config.keepsDescriptions = .error e)
  | run {p : Prepared} {e : CheckError} (hp : o.Prepares disk p)
      (h : p.check.run disk ⟨o.project⟩ = .error e)

theorem prepares_of_prepare {p : Prepared} (h : o.prepare disk = .ok p) : o.Prepares disk p := by
  rw [prepare_eq] at h
  split at h
  · cases h
  rename_i format hformat
  cases hconfig : o.configOf disk with
  | error e =>
    rw [hconfig] at h
    cases h
  | ok config =>
    rw [hconfig] at h
    obtain ⟨rfl, rfl, hvalid, hpath, hcatalog⟩ := prepareWith_eq_ok h
    exact ⟨OutputFormat.ofText?_eq_some hformat, hconfig, hvalid, hpath, hcatalog⟩

theorem Prepares.prepare {p : Prepared} (h : o.Prepares disk p) : o.prepare disk = .ok p := by
  rw [prepare_eq, h.format, OutputFormat.ofText?_name]
  show (o.configOf disk).bind (prepareWith disk p.format) = .ok p
  rw [h.settings]
  show prepareWith disk p.format p.config = .ok p
  rw [prepareWith, h.valid, h.path]
  dsimp only
  rw [h.catalog]

theorem exists_reports_or_fails (disk : Disk) (o : CheckOptions) :
    (∃ p r, o.Reports disk p r) ∨ o.Fails disk := by
  by_cases hformat : ∃ f : OutputFormat, o.format = f.name
  case neg => exact .inr (.format fun f hf => hformat ⟨f, hf⟩)
  obtain ⟨f, hf⟩ := hformat
  cases hconfig : o.configOf disk with
  | error e => exact .inr (.settings hconfig)
  | ok config =>
    cases hvalid : config.validate with
    | error fault => exact .inr (.invalid hconfig hvalid)
    | ok _ =>
      cases hpath : config.catalog with
      | none => exact .inr (.noCatalog hconfig hpath)
      | some path =>
        cases hcatalog : Catalog.load disk ⟨path⟩ config.keepsDescriptions with
        | error e => exact .inr (.catalog hconfig hpath hcatalog)
        | ok catalog =>
          have hp : o.Prepares disk ⟨f, config, ⟨path⟩, catalog⟩ :=
            ⟨hf, hconfig, hvalid, hpath, hcatalog⟩
          cases hrun : Check.run _ disk ⟨o.project⟩ with
          | ok r => exact .inl ⟨_, r, hp, hrun⟩
          | error e => exact .inr (.run hp hrun)

theorem Prepares.unique {p p' : Prepared} (h : o.Prepares disk p) (h' : o.Prepares disk p') :
    p = p' := Except.ok.inj (h.prepare.symm.trans h'.prepare)

theorem Fails.not_reports (h : o.Fails disk) (p : Prepared) (r : Report) :
    ¬ o.Reports disk p r := by
  rintro ⟨hp, hr⟩
  cases h with
  | format h => exact h _ hp.format
  | settings h => cases h.symm.trans hp.settings
  | invalid hconfig h =>
    cases hconfig.symm.trans hp.settings
    cases h.symm.trans hp.valid
  | noCatalog hconfig h =>
    cases hconfig.symm.trans hp.settings
    cases h.symm.trans hp.path
  | catalog hconfig hpath h =>
    cases hconfig.symm.trans hp.settings
    cases hpath.symm.trans hp.path
    cases h.symm.trans hp.catalog
  | run hp' h =>
    cases hp'.unique hp
    cases h.symm.trans hr

/-! ### the outcome -/

theorem Reports.run_eq {p : Prepared} {r : Report} (h : o.Reports disk p r) :
    o.run color disk =
      ⟨if r.passes p.config.targetVersion then Outcome.passed else Outcome.exceeded,
        p.output color o.project r, p.emptyWarning ++ scanWarning r⟩ := by
  rw [CheckOptions.run_eq, h.prepares.prepare]
  show p.outcome color disk o.project = _
  rw [outcome, h.run]

theorem Fails.run_eq (h : o.Fails disk) :
    ∃ warnings e, o.run color disk = .failure warnings e := by
  rw [CheckOptions.run_eq]
  cases hprepare : o.prepare disk with
  | error e => exact ⟨_, e, rfl⟩
  | ok p =>
    have hp := prepares_of_prepare hprepare
    show ∃ warnings e, p.outcome color disk o.project = .failure warnings e
    rw [outcome]
    cases hrun : p.check.run disk ⟨o.project⟩ with
    | error e => exact ⟨_, _, rfl⟩
    | ok r => exact absurd ⟨hp, hrun⟩ (h.not_reports p r)

theorem exitCode_of_passes (r : Report) (target : Option Version) :
    (if r.passes target then Outcome.passed else Outcome.exceeded) ≠ Outcome.error := by
  cases r.passes target <;> decide

theorem exitCode_eq_error_iff (color : Bool) (disk : Disk) (o : CheckOptions) :
    (o.run color disk).exitCode = Outcome.error ↔ o.Fails disk := by
  constructor
  · intro h
    rcases exists_reports_or_fails disk o with ⟨p, r, hr⟩ | hfails
    · rw [hr.run_eq] at h
      exact absurd h (exitCode_of_passes r _)
    · exact hfails
  · intro h
    obtain ⟨warnings, e, hrun⟩ := h.run_eq
    rw [hrun]
    rfl

/-- a command that does not fail comes to a report -/
theorem exists_reports (h : (o.run color disk).exitCode ≠ Outcome.error) :
    ∃ p r, o.Reports disk p r :=
  (exists_reports_or_fails disk o).resolve_right fun hfails =>
    h ((exitCode_eq_error_iff color disk o).mpr hfails)

theorem Reports.exitCode_eq {p : Prepared} {r : Report} (h : o.Reports disk p r) :
    (o.run color disk).exitCode =
      if r.passes p.config.targetVersion then Outcome.passed else Outcome.exceeded := by
  rw [h.run_eq]

/-- the gate is closed exactly when the report requires more than a target that is set -/
theorem exitCode_eq_exceeded_iff (color : Bool) (disk : Disk) (o : CheckOptions) :
    (o.run color disk).exitCode = Outcome.exceeded ↔
      ∃ p r target required, o.Reports disk p r ∧ p.config.targetVersion = some target ∧
        r.required = some required ∧ required.IsAbove target := by
  constructor
  · intro h
    have hne : (o.run color disk).exitCode ≠ Outcome.error := by rw [h]; decide
    obtain ⟨p, r, hr⟩ := exists_reports hne
    rw [hr.exitCode_eq] at h
    have hpasses : r.passes p.config.targetVersion = false := by
      cases hp : r.passes p.config.targetVersion with
      | false => rfl
      | true =>
        rw [hp] at h
        cases h
    obtain ⟨target, required, htarget, hrequired, habove⟩ := Report.passes_eq_false_iff.mp hpasses
    exact ⟨p, r, target, required, hr, htarget, hrequired, habove⟩
  · rintro ⟨p, r, target, required, hr, htarget, hrequired, habove⟩
    have hpasses := Report.passes_eq_false_iff.mpr ⟨target, required, htarget, hrequired, habove⟩
    rw [hr.exitCode_eq, hpasses]
    rfl

/-! ### the format -/

/-- the same command, printing in another format -/
def printing (o : CheckOptions) (f : OutputFormat) : CheckOptions := { o with format := f.name }

theorem prepare_printing (disk : Disk) (o : CheckOptions) (f : OutputFormat) :
    (o.printing f).prepare disk = (o.configOf disk).bind (prepareWith disk f) := by
  have hconfig : (o.printing f).configOf disk = o.configOf disk := rfl
  have hformat : OutputFormat.ofText? (o.printing f).format = some f :=
    OutputFormat.ofText?_name f
  rw [prepare_eq, hformat, hconfig]

theorem exitCode_printing (color : Bool) (disk : Disk) (o : CheckOptions) (f g : OutputFormat) :
    ((o.printing f).run color disk).exitCode = ((o.printing g).run color disk).exitCode := by
  rw [CheckOptions.run_eq, CheckOptions.run_eq, prepare_printing, prepare_printing]
  cases o.configOf disk with
  | error e => rfl
  | ok config =>
    dsimp only [Except.bind]
    rw [prepareWith_printedAs disk f g]
    cases prepareWith disk f config with
    | error e => rfl
    | ok p => exact (p.exitCode_printedAs color disk o.project g).symm

theorem Reports.printedAs {f : OutputFormat} {p : Prepared} {r : Report}
    (h : (o.printing f).Reports disk p r) (g : OutputFormat) :
    (o.printing g).Reports disk (p.printedAs g) r where
  prepares :=
    { format := rfl
      settings := h.prepares.settings
      valid := h.prepares.valid
      path := h.prepares.path
      catalog := h.prepares.catalog }
  run := h.run

theorem Reports.format_eq {f : OutputFormat} {p : Prepared} {r : Report}
    (h : (o.printing f).Reports disk p r) : p.format = f := by
  have hname : f.name = p.format.name := h.prepares.format
  have hsome := OutputFormat.ofText?_name p.format
  rw [← hname, OutputFormat.ofText?_name] at hsome
  exact (Option.some.inj hsome).symm

/-- the two formats for programs agree with each other and with the exit code -/
theorem out_printing (color : Bool) (disk : Disk) (o : CheckOptions)
    (h : ((o.printing .json).run color disk).exitCode ≠ Outcome.error) :
    ∃ fields passed required,
      ((o.printing .json).run color disk).out = Json.pretty (.record fields) ++ "\n" ∧
      Fields.need? "passed" Value.bool? fields = some passed ∧
      (passed = true ↔ ((o.printing .json).run color disk).exitCode = Outcome.passed) ∧
      Fields.need? "required_version" Value.text? fields = some required ∧
      ((o.printing .version).run color disk).out = required ++ "\n" := by
  obtain ⟨p, r, hr⟩ := exists_reports h
  have hjson : p.format = .json := hr.format_eq
  let s := r.summary o.project p.catalogPath.text p.config.targetVersion
  obtain ⟨fields, hwrite, hpassed, hrequired⟩ := s.exists_fields
  refine ⟨fields, _, _, ?_, hpassed, ?_, hrequired, ?_⟩
  · rw [hr.run_eq, ← hwrite]
    show p.output color o.project r = _
    rw [output, hjson]
  · rw [hr.exitCode_eq]
    show r.passes p.config.targetVersion = true ↔ _
    cases r.passes p.config.targetVersion <;> decide
  · rw [(hr.printedAs .version).run_eq]
    rfl

/-! ### the flags -/

theorem configOf_flags (disk : Disk) (o : CheckOptions) (sequential descriptions : Bool) :
    (configOf disk { o with sequential, descriptions }).map Config.essential =
      (o.configOf disk).map Config.essential := by
  have hpath : configPath? disk { o with sequential, descriptions } = o.configPath? disk := rfl
  rw [configOf, configOf, hpath]
  cases o.configPath? disk with
  | none => rfl
  | some path =>
    dsimp only
    cases Config.load disk path <;> rfl

theorem prepare_flags (disk : Disk) (o : CheckOptions) (sequential descriptions : Bool) :
    (prepare disk { o with sequential, descriptions }).map Prepared.essential =
      (o.prepare disk).map Prepared.essential := by
  rw [prepare_eq, prepare_eq]
  dsimp only
  cases OutputFormat.ofText? o.format with
  | none => rfl
  | some f =>
    have hconfig := configOf_flags disk o sequential descriptions
    show ((configOf disk { o with sequential, descriptions }).bind _).map _ =
      ((o.configOf disk).bind _).map _
    obtain ⟨e, he', he⟩ | ⟨c', c, hc', hc, hsame⟩ := cases_of_map_eq hconfig
    · rw [he', he]
    · rw [hc', hc]
      exact map_prepareWith_essential disk f hsame

/-- **The flags leave the whole outcome as it is.** -/
theorem run_flags (color : Bool) (disk : Disk) (o : CheckOptions)
    (sequential descriptions : Bool) :
    run color disk { o with sequential, descriptions } = o.run color disk := by
  have hprepare := prepare_flags disk o sequential descriptions
  rw [CheckOptions.run_eq, CheckOptions.run_eq]
  obtain ⟨e, he', he⟩ | ⟨p', p, hp', hp, hsame⟩ := cases_of_map_eq hprepare
  · rw [he', he]
  · rw [hp', hp]
    show p'.outcome color disk o.project = p.outcome color disk o.project
    rw [← p'.outcome_essential, hsame, p.outcome_essential]

/-! ### exit code, gate and output -/

/-- **Exit code, gate and output of a check agree.**  The exit code is 2 exactly when some stage
fails, and then nothing is printed; else it is 1 exactly when the report requires a version above
the target.  No format changes it, the formats for programs tell the same, the flags change nothing,
and the file tree stays as it is. -/
theorem run_agrees (color : Bool) (disk : Disk) (o : CheckOptions) :
    (o.run color disk).exitCode ∈ [0, 1, 2] ∧
    ((o.run color disk).exitCode = 2 ↔ o.Fails disk) ∧
    ((o.run color disk).exitCode = 2 → (o.run color disk).out = "") ∧
    ((o.run color disk).exitCode = 1 ↔
      ∃ p r target required, o.Reports disk p r ∧ p.config.targetVersion = some target ∧
        r.required = some required ∧ required.IsAbove target) ∧
    (∀ f g, ((o.printing f).run color disk).exitCode =
      ((o.printing g).run color disk).exitCode) ∧
    (((o.printing .json).run color disk).exitCode ≠ 2 →
      ∃ fields passed required,
        ((o.printing .json).run color disk).out = Json.pretty (.record fields) ++ "\n" ∧
        Fields.need? "passed" Value.bool? fields = some passed ∧
        (passed = true ↔ ((o.printing .json).run color disk).exitCode = 0) ∧
        Fields.need? "required_version" Value.text? fields = some required ∧
        ((o.printing .version).run color disk).out = required ++ "\n") ∧
    (∀ sequential descriptions,
      run color disk { o with sequential, descriptions } = o.run color disk) ∧
    ((Command.check o).run color disk).2 = disk := by
  have hcodes : (o.run color disk).exitCode ∈ [0, 1, 2] := by
    rcases exists_reports_or_fails disk o with ⟨p, r, hr⟩ | hfails
    · rw [hr.exitCode_eq]
      cases r.passes p.config.targetVersion <;> decide
    · rw [(exitCode_eq_error_iff color disk o).mpr hfails]
      decide
  have hsilent (h : (o.run color disk).exitCode = 2) : (o.run color disk).out = "" := by
    have hfails : o.Fails disk := (exitCode_eq_error_iff color disk o).mp h
    obtain ⟨warnings, e, hrun⟩ := hfails.run_eq
    rw [hrun]
    rfl
  exact ⟨hcodes, exitCode_eq_error_iff color disk o, hsilent, exitCode_eq_exceeded_iff color disk o,
    exitCode_printing color disk o, out_printing color disk o, run_flags color disk o, rfl⟩

/-- a project with one call, and its catalog -/
def smallProject : Disk :=
  ((Disk.bare ["work"]).put ⟨"a.php"⟩ (.file (Text.encode "<?php str_contains($a, 'x');"))).put
    ⟨"c.json"⟩ (.file (Text.encode
      "[\x7b\"name\": \"str_contains\", \"minVersion\": \"8.0.0\"\x7d]"))

def smallOptions : CheckOptions := ⟨".", some "c.json", none, "json", none, [], false, false⟩

/-- without a target the gate is open; with a format that is none nothing is printed -/
theorem run_agrees_small :
    (∃ fields, (smallOptions.run false smallProject).out = Json.pretty (.record fields) ++ "\n" ∧
      Fields.need? "passed" Value.bool? fields = some true) ∧
    (run false smallProject { smallOptions with format := "yaml" }).out = "" := by
  obtain ⟨-, -, -, -, -, hjson, -, -⟩ := run_agrees false smallProject smallOptions
  obtain ⟨-, -, hsilent, -⟩ := run_agrees false smallProject { smallOptions with format := "yaml" }
  have hcode : (smallOptions.run false smallProject).exitCode = 0 := by decide +kernel
  have hsame : smallOptions.printing .json = smallOptions := rfl
  rw [hsame, hcode] at hjson
  obtain ⟨fields, passed, required, hout, hpassed, hverdict, -, -⟩ := hjson (by decide)
  have htrue : passed = true := hverdict.mpr rfl
  exact ⟨⟨fields, hout, htrue ▸ hpassed⟩, hsilent (by decide +kernel)⟩

end CheckOptions

end VersionFloor
