import VersionFloor.Config.Basic
import VersionFloor.Proofs.Check.Discovery
import VersionFloor.Proofs.Text.Case

/-!
# Settings: the extensions of a project

Settings are checked with the points in front of an entry and the blanks around it taken away; a
discovery takes the points away only.  The two readings are the same for an entry without blanks
around it (`extensionKey_eq_iff`), so such an entry is effective; any other is effective only where
an entry beside it stands for its extension (`discover_validated`).
-/

namespace VersionFloor

open Text

namespace Config

/-! ### how an entry is read -/

/-- an entry as it is checked: without the points in front, then without the blanks around -/
def reading (entry : String) : String := trim (String.ofList (Selection.withoutPoints entry))

/-- behind the points in front, no blank stands at either end of an entry -/
structure IsTight (entry : String) : Prop where
  first : ∀ c ∈ (Selection.withoutPoints entry).head?, isBlank c = false
  last : ∀ c ∈ (Selection.withoutPoints entry).getLast?, isBlank c = false

theorem toList_reading (entry : String) :
    (reading entry).toList = trimBy isBlank (Selection.withoutPoints entry) := by
  rw [reading, trim, String.toList_ofList, String.toList_ofList]

theorem isTight_iff {entry : String} :
    IsTight entry ↔ reading entry = String.ofList (Selection.withoutPoints entry) := by
  rw [← String.toList_inj, toList_reading, String.toList_ofList, trimBy_eq_self_iff]
  exact ⟨fun h => ⟨h.first, h.last⟩, fun h => ⟨h.1, h.2⟩⟩

theorem isEmptyExtension_iff {entry : String} :
    isEmptyExtension entry = true ↔ reading entry = "" := by
  rw [← String.toList_inj, toList_reading, String.toList_empty, trimBy_eq_nil_iff,
    isEmptyExtension, List.all_eq_true]

/-- **The two readings of an entry** are the same where nothing is trimmed, and only there: lower
case neither takes a blank away nor brings one. -/
theorem extensionKey_eq_iff {entry : String} :
    Selection.extensionKey entry = lower (reading entry) ↔ IsTight entry := by
  constructor
  · intro h
    -- the keys have as many blanks as the texts that they are made of
    have hcount := congrArg (fun s : String => s.toList.countP isBlank) h
    simp only [Selection.extensionKey, countP_isBlank_lower, toList_reading,
      String.toList_ofList] at hcount
    rw [isTight_iff, ← String.toList_inj, toList_reading, String.toList_ofList]
    exact trimBy_eq_self_of_countP hcount.symm
  · intro h
    rw [Selection.extensionKey, isTight_iff.mp h]

/-! ### settings that are accepted -/

theorem validate_eq_ok_iff {c : Config} :
    c.validate = .ok () ↔
      (∀ e ∈ c.extensions, reading e ≠ "") ∧
        ∀ pattern ∈ c.excluded, ∃ g, Glob.parse pattern = .ok g := by
  have hempty : c.extensions.any isEmptyExtension = true ↔ ∃ e ∈ c.extensions, reading e = "" := by
    rw [List.any_eq_true]
    exact exists_congr fun e => and_congr_right fun _ => isEmptyExtension_iff
  rw [← Glob.parseAll_ok_iff, validate]
  split
  · rename_i h
    obtain ⟨e, he, hreading⟩ := hempty.mp h
    exact iff_of_false nofun fun hall => hall.1 e he hreading
  · rename_i h
    have hall : ∀ e ∈ c.extensions, reading e ≠ "" :=
      fun e he hreading => h (hempty.mpr ⟨e, he, hreading⟩)
    rw [and_iff_right hall]
    cases Glob.parseAll c.excluded with
    | error f => exact iff_of_false nofun nofun
    | ok gs => exact iff_of_true rfl ⟨gs, rfl⟩

/-- the extensions that are taken when none is given are no exception -/
theorem reading_ne_of_validate {c : Config} (h : c.validate = .ok ()) :
    ∀ e ∈ c.effectiveExtensions, reading e ≠ "" := by
  rw [effectiveExtensions]
  split
  · decide
  · exact (validate_eq_ok_iff.mp h).1

end Config

/-! ### the files of an extension -/

/-- the extension is all that is known of a name -/
theorem Path.HasExtension.unique {name ext ext' : String} (h : Path.HasExtension name ext)
    (h' : Path.HasExtension name ext') : ext = ext' :=
  Option.some.inj ((extensionOf?_eq_some_iff.mpr h).symm.trans (extensionOf?_eq_some_iff.mpr h'))

/-- a file that a check of the directory at `root` reads if the selection has its extension -/
structure Selection.Offers (s : Selection) (disk : Disk) (root below : List String)
    (ext : String) : Prop extends s.Reaches disk root below where
  file : ∃ content, disk.root.at? (root ++ below) = some (.file content)
  named : ∃ name, below.getLast? = some name ∧ Path.HasExtension name ext

theorem Selection.Offers.selects_iff {s : Selection} {disk : Disk} {root below : List String}
    {ext : String} (h : s.Offers disk root below ext) :
    s.Selects disk root below ↔ ∃ e ∈ s.extensions, extensionKey e = lower ext := by
  obtain ⟨name, hlast, hext⟩ := h.named
  constructor
  · rintro ⟨-, -, name', ext', hlast', hext', e, he, hkey⟩
    obtain rfl := Option.some.inj (hlast.symm.trans hlast')
    exact ⟨e, he, by rw [hext.unique hext', hkey]⟩
  · rintro ⟨e, he, hkey⟩
    exact ⟨h.toReaches, h.file, name, ext, hlast, hext, e, he, hkey.symm⟩

/-- a file of the tree is found under its path exactly when it is selected -/
theorem Discovery.Follows.pathOf_mem_files_iff {d : Discovery} {s : Selection} (h : d.Follows s)
    {disk : Disk} (hwell : disk.root.WellFormed) {entries : List (String × FileTree)}
    (hstarts : d.Starts disk entries) {below : List String}
    (hfile : ∃ content, disk.root.at? (d.root ++ below) = some (.file content)) :
    d.pathOf below ∈ d.files disk ↔ s.Selects disk d.root below := by
  have hnames {p : List String}
      (hp : ∃ content, disk.root.at? (d.root ++ p) = some (.file content)) :
      (∀ name ∈ d.root ++ p, FileTree.IsEntryName name) ∧ p ≠ [] := by
    obtain ⟨content, hat⟩ := hp
    refine ⟨(hwell.at? hat).2, ?_⟩
    rintro rfl
    rw [List.append_nil, hstarts.dir] at hat
    cases hat
  rw [h.mem_files_iff hwell hstarts]
  constructor
  · rintro ⟨found, hpath, hfound⟩
    obtain ⟨hentries, hne⟩ := hnames hfound.file
    obtain ⟨hentries', hne'⟩ := hnames hfile
    rwa [eq_of_pathOf_eq hentries' hentries hne' hne hpath]
  · exact fun hselects => ⟨below, rfl, hselects⟩

/-! ### accepted and effective -/

/-- **When an accepted entry is effective.**  With settings that are accepted, a discovery of any
directory that can be listed comes about, and no entry is read as nothing.  A file below the root,
in directories that can be listed, with the extension that an entry is read as is found if and only
if some entry, this or another, is that extension as it stands; an entry without blanks around it
always is. -/
theorem Config.discover_validated (c : Config) (hvalid : c.validate = .ok ()) (disk : Disk)
    (hwell : disk.root.WellFormed) (root : Path) (names : List String)
    (entries : List (String × FileTree)) (hleads : disk.LeadsTo root names entries) :
    ∃ d, discover disk root c.selection = .ok d ∧ d.root = names ∧
      ∀ e ∈ c.effectiveExtensions,
        reading e ≠ "" ∧ (Selection.extensionKey e = lower (reading e) ↔ IsTight e) ∧
        ∀ below ext, c.selection.Offers disk names below ext → lower ext = lower (reading e) →
          (d.pathOf below ∈ d.files disk ↔
            ∃ e' ∈ c.effectiveExtensions, Selection.extensionKey e' = lower (reading e)) ∧
          (IsTight e → d.pathOf below ∈ d.files disk) := by
  obtain ⟨d, hd⟩ := exists_discover (s := c.selection) hleads (validate_eq_ok_iff.mp hvalid).2
  obtain ⟨rfl, hstarts, hfollows⟩ := follows_of_discover hleads hd
  refine ⟨d, hd, rfl, fun e he => ⟨reading_ne_of_validate hvalid e he, extensionKey_eq_iff,
    fun below ext hoffers hext => ?_⟩⟩
  have hfound : d.pathOf below ∈ d.files disk ↔
      ∃ e' ∈ c.effectiveExtensions, Selection.extensionKey e' = lower (reading e) := by
    rw [hfollows.pathOf_mem_files_iff hwell hstarts hoffers.file, hoffers.selects_iff, hext]
    rfl
  exact ⟨hfound, fun htight => hfound.mpr ⟨e, he, extensionKey_eq_iff.mpr htight⟩⟩

/-- a project of one source file -/
def Disk.withSource : Disk where
  root := .dir [("work", .dir [("a.php", .file [])])]
  cwd := ["work"]

theorem Disk.leadsTo_withSource :
    withSource.LeadsTo ⟨"."⟩ ["work"] [("a.php", .file [])] :=
  ⟨withSource.canonical_here, rfl, by decide +kernel⟩

/-- nothing but its extension decides whether the source file is found -/
theorem Selection.offers_withSource {s : Selection} (h : s.excluded = []) :
    s.Offers Disk.withSource ["work"] ["a.php"] "php" := by
  have hpath {p : List String} (hp : p <+: ["a.php"]) (hne : p ≠ []) : p = ["a.php"] := by
    obtain ⟨name, rest, rfl⟩ := List.exists_cons_of_ne_nil hne
    obtain ⟨rfl, hrest⟩ := List.cons_prefix_cons.mp hp
    rw [List.prefix_nil.mp hrest]
  refine ⟨⟨fun p hp hne => ?_, fun p hp hne target hat => ?_, fun p _ _ hexcluded => ?_⟩, ⟨[], rfl⟩,
    "a.php", rfl, ['a'], by decide, by decide, by decide⟩
  · obtain rfl : p = [] := not_not.mp fun hsome => hne (hpath hp hsome)
    decide +kernel
  · rw [hpath hp hne] at hat
    cases hat
  · obtain ⟨pattern, hpattern, -⟩ := hexcluded
    rw [h] at hpattern
    cases hpattern

namespace Config

/-- points in front and capitals do no harm, nor does an entry with a blank beside it -/
theorem discover_validated_points :
    let c : Config := { Config.empty with extensions := ["inc ", "..PHP"] }
    ∃ d, discover Disk.withSource ⟨"."⟩ c.selection = .ok d ∧
      d.pathOf ["a.php"] ∈ d.files Disk.withSource := by
  intro c
  have hwell : Disk.withSource.root.WellFormed := by
    refine .dir (by decide) (by decide) fun e he => List.mem_singleton.mp he ▸ ?_
    exact .dir (by decide) (by decide) fun e he => List.mem_singleton.mp he ▸ .file []
  have hvalid : c.validate = .ok () := by decide +kernel
  obtain ⟨d, hd, -, hall⟩ := discover_validated c hvalid Disk.withSource hwell ⟨"."⟩ _ _
    Disk.leadsTo_withSource
  obtain ⟨-, -, hfound⟩ := hall "..PHP" (by decide)
  have hext : lower "php" = lower (reading "..PHP") := by decide +kernel
  have htight : IsTight "..PHP" := isTight_iff.mpr (by decide +kernel)
  exact ⟨d, hd, (hfound _ _ (Selection.offers_withSource rfl) hext).2 htight⟩

/-- an entry with a blank behind it is accepted as `php`, and no file of that extension is found -/
theorem discover_blank_misses :
    let c : Config := { Config.empty with extensions := ["php "] }
    c.validate = .ok () ∧ reading "php " = "php" ∧
      c.selection.Offers Disk.withSource ["work"] ["a.php"] "php" ∧
      ∃ d, discover Disk.withSource ⟨"."⟩ c.selection = .ok d ∧ d.files Disk.withSource = [] := by
  intro c
  have hvalid : c.validate = .ok () := by decide +kernel
  obtain ⟨d, hd⟩ := exists_discover (s := c.selection) Disk.leadsTo_withSource
    (validate_eq_ok_iff.mp hvalid).2
  have hfiles : (discover Disk.withSource ⟨"."⟩ c.selection).toOption.map
      (·.files Disk.withSource) = some [] := by decide +kernel
  rw [hd] at hfiles
  exact ⟨hvalid, by decide +kernel, Selection.offers_withSource rfl, d, hd, Option.some.inj hfiles⟩

end Config

end VersionFloor
