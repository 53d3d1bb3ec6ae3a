import VersionFloor.Proofs.Check.Walk

/-!
# Checks: which files a discovery finds

They are the regular files below the root with one of the extensions, where no directory on the way
and not the file itself is excluded, as long as the directories on the way can be listed; each that
cannot be listed is reported in place of what is in it (`discover_exact`).
-/

namespace VersionFloor

open Text

/-! ### extensions -/

/-- the name goes on behind its last point with this extension; something stands before the point -/
def Path.HasExtension (name ext : String) : Prop :=
  ∃ stem, stem ≠ [] ∧ name.toList = stem ++ '.' :: ext.toList ∧ '.' ∉ ext.toList

theorem Path.extensionOf?_eq (name : String) :
    Path.extensionOf? name =
      if (afterLast '.' name.toList).length + 1 < name.toList.length then
        some (String.ofList (afterLast '.' name.toList))
      else none := rfl

theorem Path.extensionOf?_eq_some_iff {name ext : String} :
    Path.extensionOf? name = some ext ↔ Path.HasExtension name ext := by
  rw [extensionOf?_eq]
  constructor
  · intro h
    obtain ⟨hlen, hsome⟩ := Option.ite_none_right_eq_some.mp h
    obtain rfl := Option.some.inj hsome
    by_cases hmem : '.' ∈ name.toList
    · obtain ⟨stem, hname, hext⟩ := exists_eq_append_afterLast hmem
      refine ⟨stem, ?_, ?_, ?_⟩
      · rintro rfl
        rw [List.nil_append] at hname
        have heq := congrArg List.length hname
        rw [List.length_cons] at heq
        omega
      · rw [String.toList_ofList]
        exact hname
      · rw [String.toList_ofList]
        exact hext
    · rw [afterLast_of_not_mem hmem] at hlen
      omega
  · rintro ⟨stem, hstem, hname, hext⟩
    have hpos := List.length_pos_iff.mpr hstem
    rw [hname, afterLast_append hext, String.ofList_toList, if_pos]
    rw [List.length_append, List.length_cons]
    omega

/-! ### the root -/

/-- a path leads to a directory that can be listed, which stands at these names -/
structure Disk.LeadsTo (disk : Disk) (path : Path) (names : List String)
    (entries : List (String × FileTree)) : Prop where
  canonical : disk.canonical path = .ok names
  dir : disk.root.at? names = some (.dir entries)
  listed : disk.listingFault? names = none

theorem Disk.rootOf_of_canonical {disk : Disk} {root : Path} {names : List String}
    (h : disk.canonical root = .ok names) :
    rootOf disk root =
      match disk.standing names with
      | .error e => .error (.unreachable e)
      | .ok n =>
        if n.isDir then
          match disk.listingFault? names with
          | none => .ok names
          | some e => .error (.unreachable e)
        else .error .notDirectory := by
  simp only [rootOf, h, Except.mapError, bind, Except.bind]
  cases disk.standing names <;> rfl

theorem Disk.rootOf_eq_ok_iff {disk : Disk} {root : Path} {names : List String} :
    rootOf disk root = .ok names ↔ ∃ entries, disk.LeadsTo root names entries := by
  constructor
  · intro h
    cases hcanonical : disk.canonical root with
    | error e =>
      rw [rootOf, hcanonical] at h
      cases h
    | ok found =>
      rw [rootOf_of_canonical hcanonical] at h
      split at h
      · cases h
      · rename_i n hstanding
        split at h
        · rename_i hdir
          split at h
          · rename_i hlisted
            cases h
            cases n with
            | dir entries => exact ⟨entries, hcanonical, at?_of_standing hstanding, hlisted⟩
            | _ => cases hdir
          · cases h
        · cases h
  · rintro ⟨entries, h⟩
    rw [rootOf_of_canonical h.canonical, standing_of_listed h.listed h.dir, h.listed]
    rfl

/-- a point leads to the working directory -/
theorem Disk.canonical_here (d : Disk) : d.canonical ⟨"."⟩ = .ok d.cwd := by
  have hpieces : Path.pieces ⟨"."⟩ = ["."] := by decide +kernel
  rw [canonical, hpieces]
  rfl

/-! ### patterns -/

theorem Glob.parseAll_cons {pattern : String} {g : Glob} (h : Glob.parse pattern = .ok g)
    (patterns : List String) :
    Glob.parseAll (pattern :: patterns) = (Glob.parseAll patterns).map (g :: ·) := by
  rw [parseAll, h]
  rfl

/-- patterns that are all well formed -/
theorem Glob.mem_of_parseAll {patterns : List String} {globs : List Glob}
    (h : Glob.parseAll patterns = .ok globs) (g : Glob) :
    g ∈ globs ↔ ∃ pattern ∈ patterns, Glob.parse pattern = .ok g := by
  induction patterns generalizing globs with
  | nil =>
    cases h
    simp
  | cons pattern patterns ih =>
    cases hparse : parse pattern with
    | error e =>
      rw [parseAll, hparse] at h
      cases h
    | ok first =>
      rw [parseAll_cons hparse] at h
      cases hall : parseAll patterns with
      | error f =>
        rw [hall] at h
        cases h
      | ok more =>
        rw [hall] at h
        cases h
        rw [List.mem_cons, ih hall, List.exists_mem_cons_iff, hparse, Except.ok.injEq,
          eq_comm (a := g)]

/-- patterns one of which is not well formed -/
theorem Glob.parseAll_error_iff {patterns : List String} :
    (∃ pattern e, Glob.parseAll patterns = .error (pattern, e)) ↔
      ∃ pattern ∈ patterns, ∃ e, Glob.parse pattern = .error e := by
  induction patterns with
  | nil =>
    constructor
    · rintro ⟨pattern, e, h⟩
      cases h
    · rintro ⟨pattern, h, -⟩
      cases h
  | cons pattern patterns ih =>
    rw [List.exists_mem_cons_iff]
    cases hparse : parse pattern with
    | error e => exact iff_of_true ⟨pattern, e, by rw [parseAll, hparse]⟩ (.inl ⟨e, rfl⟩)
    | ok g =>
      have hhead : ¬ ∃ e, Except.ok (ε := GlobError) g = .error e := by
        rintro ⟨e, he⟩
        cases he
      rw [or_iff_right hhead, ← ih, parseAll_cons hparse]
      cases parseAll patterns with
      | error f =>
        exact iff_of_true ⟨f.1, f.2, rfl⟩ ⟨f.1, f.2, rfl⟩
      | ok more =>
        constructor
        · rintro ⟨p, e, h⟩
          cases h
        · rintro ⟨p, e, h⟩
          cases h

theorem Glob.parseAll_ok_iff {patterns : List String} :
    (∃ globs, Glob.parseAll patterns = .ok globs) ↔
      ∀ pattern ∈ patterns, ∃ g, Glob.parse pattern = .ok g := by
  constructor
  · rintro ⟨globs, hall⟩ pattern hpattern
    cases hparse : parse pattern with
    | ok g => exact ⟨g, rfl⟩
    | error e =>
      obtain ⟨_, _, herror⟩ := parseAll_error_iff.mpr ⟨pattern, hpattern, e, hparse⟩
      cases hall.symm.trans herror
  · intro hpatterns
    cases hall : parseAll patterns with
    | ok globs => exact ⟨globs, rfl⟩
    | error f =>
      obtain ⟨pattern, hpattern, e, he⟩ := parseAll_error_iff.mp ⟨f.1, f.2, hall⟩
      obtain ⟨g, hg⟩ := hpatterns pattern hpattern
      cases he.symm.trans hg

/-! ### the files of a selection -/

/-- the patterns that are matched against a path below the root -/
def Selection.Excludes (s : Selection) (names : List String) : Prop :=
  ∃ pattern ∈ s.excluded, ∃ g, Glob.parse pattern = .ok g ∧
    g.isMatch (Discovery.patternText names) = true

/-- what a check of the directory at `root` comes to -/
structure Selection.Reaches (s : Selection) (disk : Disk) (root below : List String) : Prop where
  /-- all directories above it can be listed -/
  listed : ∀ p, p <+: below → p ≠ below → disk.listingFault? (root ++ p) = none
  /-- neither a directory on the way nor the node itself is a link -/
  unlinked : ∀ p, p <+: below → p ≠ [] → ∀ target, disk.root.at? (root ++ p) ≠ some (.link target)
  /-- neither a directory on the way nor the node itself is excluded -/
  included : ∀ p, p <+: below → p ≠ [] → ¬ s.Excludes p

/-- a file that a check of the directory at `root` is to read -/
structure Selection.Selects (s : Selection) (disk : Disk) (root below : List String) : Prop extends
    s.Reaches disk root below where
  file : ∃ content, disk.root.at? (root ++ below) = some (.file content)
  recognized : ∃ name ext, below.getLast? = some name ∧ Path.HasExtension name ext ∧
    ∃ e ∈ s.extensions, lower ext = Selection.extensionKey e

/-- a directory that a check of the directory at `root` cannot list -/
structure Selection.Bars (s : Selection) (disk : Disk) (root below : List String)
    (e : FileError) : Prop extends s.Reaches disk root below where
  dir : ∃ entries, disk.root.at? (root ++ below) = some (.dir entries)
  fault : disk.listingFault? (root ++ below) = some e

/-- a walk that is ready for a selection -/
structure Discovery.Follows (d : Discovery) (s : Selection) : Prop where
  extensions : d.extensions = s.extensions.map Selection.extensionKey
  excluded : Glob.parseAll s.excluded = .ok d.excluded

namespace Discovery

variable {d : Discovery} {s : Selection}

theorem Follows.excludes_eq_false_iff (h : d.Follows s) (names : List String) :
    d.excludes names = false ↔ ¬ s.Excludes names := by
  rw [excludes, List.any_eq_false]
  constructor
  · rintro hall ⟨pattern, hpattern, g, hg, hmatch⟩
    exact hall g ((Glob.mem_of_parseAll h.excluded g).mpr ⟨pattern, hpattern, hg⟩) hmatch
  · intro hnone g hg hmatch
    obtain ⟨pattern, hpattern, hparse⟩ := (Glob.mem_of_parseAll h.excluded g).mp hg
    exact hnone ⟨pattern, hpattern, g, hparse, hmatch⟩

theorem Follows.recognizes_iff (h : d.Follows s) (name : String) :
    d.recognizes name = true ↔
      ∃ ext, Path.HasExtension name ext ∧
        ∃ e ∈ s.extensions, lower ext = Selection.extensionKey e := by
  rw [recognizes, Option.any_eq_true, h.extensions]
  refine exists_congr fun ext => and_congr Path.extensionOf?_eq_some_iff ?_
  rw [List.contains_iff_mem, List.mem_map]
  exact exists_congr fun e => and_congr_right fun _ => eq_comm

theorem Follows.enters_iff (h : d.Follows s) {disk : Disk} {below : List String} {m : FileTree}
    (hat : disk.root.at? (d.root ++ below) = some m) (hm : ∀ target, m ≠ .link target) :
    d.Enters disk [] below ↔ s.Reaches disk d.root below := by
  constructor
  · intro henters
    refine ⟨henters.listed, fun p hp _ => ?_, fun p hp hne => ?_⟩
    · exact FileTree.not_link_of_prefix hat hm ((List.prefix_append_right_inj d.root).mpr hp)
    · exact (h.excludes_eq_false_iff p).mp (henters.included p hp hne)
  · intro hreaches
    exact ⟨hreaches.listed, fun p hp hne =>
      (h.excludes_eq_false_iff p).mpr (hreaches.included p hp hne)⟩

section

variable {disk : Disk} {entries : List (String × FileTree)} (h : d.Follows s)
  (hwell : disk.root.WellFormed) (hstarts : d.Starts disk entries)
include h hwell hstarts

theorem Follows.mem_stopsAt_iff {names : List String} {fault : Option FileError} :
    ⟨names, fault⟩ ∈ d.stopsAt disk [] (.dir entries) ↔
      ∃ m, disk.root.at? (d.root ++ names) = some m ∧
        s.Reaches disk d.root names ∧ d.EndsAt disk names m fault := by
  have hlink {m : FileTree} (hends : d.EndsAt disk names m fault) (target : String) :
      m ≠ .link target := by
    rintro rfl
    cases hends
  have hbelow (p : List String) : disk.root.at? (d.root ++ p) = (FileTree.dir entries).at? p := by
    rw [FileTree.at?_append, hstarts.dir]
    rfl
  rw [d.mem_stopsAt disk (hwell.at? hstarts.dir).1]
  constructor
  · rintro ⟨_, m, rfl, hat, henters, hends⟩
    have hat := (hbelow _).trans hat
    exact ⟨m, hat, (h.enters_iff hat (hlink hends)).mp henters, hends⟩
  · rintro ⟨m, hat, hreaches, hends⟩
    exact ⟨names, m, rfl, (hbelow names).symm.trans hat,
      (h.enters_iff hat (hlink hends)).mpr hreaches, hends⟩

/-- **The files that a walk stops at are those that the selection selects.** -/
theorem Follows.selects_iff (names : List String) :
    ⟨names, none⟩ ∈ d.stopsAt disk [] (.dir entries) ↔ s.Selects disk d.root names := by
  rw [h.mem_stopsAt_iff hwell hstarts]
  constructor
  · rintro ⟨m, hat, hreaches, hends⟩
    cases hends with
    | file hlast =>
      have hne : names ≠ [] := by
        rintro rfl
        rw [List.append_nil, hstarts.dir] at hat
        cases hat
      rw [List.getLast?_append_of_ne_nil _ hne] at hlast
      obtain ⟨name, hname, hrecognized⟩ := (Option.any_eq_true ..).mp hlast
      obtain ⟨ext, hext, hmem⟩ := (h.recognizes_iff name).mp hrecognized
      exact ⟨hreaches, ⟨_, hat⟩, name, ext, hname, hext, hmem⟩
  · rintro ⟨hreaches, ⟨content, hat⟩, name, ext, hname, hext, hmem⟩
    refine ⟨_, hat, hreaches, .file ?_⟩
    rw [List.getLast?_append, hname]
    exact (h.recognizes_iff name).mpr ⟨ext, hext, hmem⟩

/-- **The other stops of a walk are the directories that cannot be listed.** -/
theorem Follows.bars_iff (names : List String) (e : FileError) :
    ⟨names, some e⟩ ∈ d.stopsAt disk [] (.dir entries) ↔ s.Bars disk d.root names e := by
  rw [h.mem_stopsAt_iff hwell hstarts]
  constructor
  · rintro ⟨m, hat, hreaches, hends⟩
    cases hends with
    | dir hfault => exact ⟨hreaches, ⟨_, hat⟩, hfault⟩
  · rintro ⟨hreaches, ⟨entries, hat⟩, hfault⟩
    exact ⟨_, hat, hreaches, .dir hfault⟩

theorem Follows.mem_files_iff (path : Path) :
    path ∈ d.files disk ↔ ∃ below, path = d.pathOf below ∧ s.Selects disk d.root below := by
  rw [hstarts.mem_files]
  exact exists_congr fun below => and_congr_right fun _ => h.selects_iff hwell hstarts below

theorem Follows.mem_unlisted_iff (skip : Skip) :
    skip ∈ d.unlisted disk ↔
      ∃ below e, skip = d.skipAt below e ∧ s.Bars disk d.root below e := by
  rw [hstarts.mem_unlisted]
  exact exists_congr fun below => exists_congr fun e =>
    and_congr_right fun _ => h.bars_iff hwell hstarts below e

end

end Discovery

/-! ### discovery -/

section

variable {disk : Disk} {root : Path} {s : Selection}

theorem discover_of_leadsTo {names : List String} {entries : List (String × FileTree)}
    (h : disk.LeadsTo root names entries) :
    discover disk root s =
      ((Glob.parseAll s.excluded).mapError fun f => .invalidExclusion f.1 f.2).map
        fun excluded => ⟨names, s.extensions.map Selection.extensionKey, excluded⟩ := by
  rw [discover, Disk.rootOf_eq_ok_iff.mpr ⟨entries, h⟩]
  rfl

theorem discover_of_not_leadsTo (h : ¬ ∃ names entries, disk.LeadsTo root names entries) :
    ∃ fault, discover disk root s = .error (.unresolvableRoot root fault) := by
  rw [discover]
  cases hroot : rootOf disk root with
  | error fault => exact ⟨fault, rfl⟩
  | ok names => exact absurd ⟨names, Disk.rootOf_eq_ok_iff.mp hroot⟩ h

/-- a root that is a directory and cannot be listed -/
theorem discover_of_listingFault {names : List String} {entries : List (String × FileTree)}
    {e : FileError} (hcanonical : disk.canonical root = .ok names)
    (hdir : disk.root.at? names = some (.dir entries)) (he : disk.listingFault? names = some e) :
    discover disk root s = .error (.unresolvableRoot root (.unreachable e)) := by
  have hroot : rootOf disk root = .error (.unreachable e) := by
    have hfault := he
    rw [Disk.listingFault?] at hfault
    split at hfault
    · rename_i hlong
      cases hfault
      rw [Disk.rootOf_of_canonical hcanonical, Disk.standing, if_pos hlong]
    · rename_i hshort
      rw [Disk.rootOf_of_canonical hcanonical, Disk.standing, if_neg hshort, hdir, he]
      rfl
  rw [discover, hroot]
  rfl

theorem unresolvableRoot_iff :
    (∃ fault, discover disk root s = .error (.unresolvableRoot root fault)) ↔
      ¬ ∃ names entries, disk.LeadsTo root names entries := by
  constructor
  · rintro ⟨fault, hfault⟩ ⟨names, entries, h⟩
    rw [discover_of_leadsTo h] at hfault
    cases hall : Glob.parseAll s.excluded with
    | error f =>
      rw [hall] at hfault
      cases hfault
    | ok excluded =>
      rw [hall] at hfault
      cases hfault
  · exact discover_of_not_leadsTo

theorem invalidExclusion_iff :
    (∃ pattern e, discover disk root s = .error (.invalidExclusion pattern e)) ↔
      (∃ names entries, disk.LeadsTo root names entries) ∧
        ∃ pattern ∈ s.excluded, ∃ e, Glob.parse pattern = .error e := by
  constructor
  · rintro ⟨pattern, e, herror⟩
    by_cases h : ∃ names entries, disk.LeadsTo root names entries
    · refine ⟨h, Glob.parseAll_error_iff.mp ?_⟩
      obtain ⟨names, entries, h⟩ := h
      rw [discover_of_leadsTo h] at herror
      cases hall : Glob.parseAll s.excluded with
      | error f => exact ⟨f.1, f.2, rfl⟩
      | ok excluded =>
        rw [hall] at herror
        cases herror
    · obtain ⟨fault, hfault⟩ := discover_of_not_leadsTo (s := s) h
      cases hfault.symm.trans herror
  · rintro ⟨⟨names, entries, h⟩, hpattern⟩
    obtain ⟨pattern, e, hall⟩ := Glob.parseAll_error_iff.mpr hpattern
    rw [discover_of_leadsTo h, hall]
    exact ⟨pattern, e, rfl⟩

/-- a discovery that comes about has its root where the path leads -/
theorem follows_of_discover {d : Discovery} {names : List String}
    {entries : List (String × FileTree)} (h : disk.LeadsTo root names entries)
    (hd : discover disk root s = .ok d) :
    d.root = names ∧ d.Starts disk entries ∧ d.Follows s := by
  rw [discover_of_leadsTo h] at hd
  cases hall : Glob.parseAll s.excluded with
  | error f =>
    rw [hall] at hd
    cases hd
  | ok excluded =>
    rw [hall] at hd
    cases hd
    exact ⟨rfl, ⟨h.dir, h.listed⟩, rfl, hall⟩

theorem exists_discover {names : List String} {entries : List (String × FileTree)}
    (h : disk.LeadsTo root names entries)
    (hpatterns : ∀ pattern ∈ s.excluded, ∃ g, Glob.parse pattern = .ok g) :
    ∃ d, discover disk root s = .ok d := by
  obtain ⟨excluded, hall⟩ := Glob.parseAll_ok_iff.mpr hpatterns
  rw [discover_of_leadsTo h, hall]
  exact ⟨_, rfl⟩

end

/-- **Discovery finds exactly the right files.**  It fails over the root exactly when that does not
lead to a directory that can be listed, and over the patterns exactly when the root does and some
pattern is not well formed.  Otherwise it lists each file that the selection selects once, and
nothing else, and each directory in which it cannot look once.  So it does not matter which links
there are below the root. -/
theorem discover_exact (disk : Disk) (hwell : disk.root.WellFormed) (root : Path) (s : Selection) :
    ((∃ fault, discover disk root s = .error (.unresolvableRoot root fault)) ↔
      ¬ ∃ names entries, disk.LeadsTo root names entries) ∧
    ((∃ pattern e, discover disk root s = .error (.invalidExclusion pattern e)) ↔
      (∃ names entries, disk.LeadsTo root names entries) ∧
        ∃ pattern ∈ s.excluded, ∃ e, Glob.parse pattern = .error e) ∧
    (∀ names entries, disk.LeadsTo root names entries →
      (∀ pattern ∈ s.excluded, ∃ g, Glob.parse pattern = .ok g) →
      ∃ d, discover disk root s = .ok d ∧ d.root = names ∧
        (d.files disk).Nodup ∧
        (∀ path, path ∈ d.files disk ↔
          ∃ below, path = d.pathOf below ∧ s.Selects disk names below) ∧
        (d.unlisted disk).Nodup ∧
        ∀ skip, skip ∈ d.unlisted disk ↔
          ∃ below e, skip = d.skipAt below e ∧ s.Bars disk names below e) ∧
    (∀ (disk' : Disk) names entries entries', disk.LeadsTo root names entries →
      disk'.LeadsTo root names entries' →
      Discovery.withoutLinksIn entries' = Discovery.withoutLinksIn entries →
      (∀ below, disk'.listingFault? (names ++ below) = disk.listingFault? (names ++ below)) →
      discover disk' root s = discover disk root s ∧
        ∀ d, discover disk root s = .ok d → d.walk disk' = d.walk disk) := by
  refine ⟨unresolvableRoot_iff, invalidExclusion_iff, fun names entries h hpatterns => ?_,
    fun disk' names entries entries' h h' hsame hlisting => ?_⟩
  · obtain ⟨d, hd⟩ := exists_discover h hpatterns
    obtain ⟨rfl, hstarts, hfollows⟩ := follows_of_discover h hd
    have hwalk : (d.walk disk).Nodup := .of_map _ (hstarts.nodup_walk hwell)
    refine ⟨d, hd, rfl, hwalk.filterMap ?_, hfollows.mem_files_iff hwell hstarts,
      hwalk.filterMap ?_, hfollows.mem_unlisted_iff hwell hstarts⟩
    · rintro (path | skip) (path' | skip') found hpath hpath' <;> simp_all [Found.path?]
    · rintro (path | skip) (path' | skip') found hskip hskip' <;> simp_all [Found.skip?]
  · refine ⟨by rw [discover_of_leadsTo h, discover_of_leadsTo h'], fun d hd => ?_⟩
    obtain ⟨rfl, hstarts, -⟩ := follows_of_discover h hd
    have hstarts' : d.Starts disk' entries' := ⟨h'.dir, h'.listed⟩
    have hstops : d.stopsAt disk' [] (.dir entries') = d.stopsAt disk [] (.dir entries) :=
      calc d.stopsAt disk' [] (.dir entries')
        _ = d.stopsAt disk' [] (Discovery.withoutLinks (.dir entries')) :=
          (Discovery.stopsAt_withoutLinks (fun _ => rfl) [] _).symm
        _ = d.stopsAt disk' [] (Discovery.withoutLinks (.dir entries)) := by
          rw [Discovery.withoutLinks, Discovery.withoutLinks, hsame]
        _ = d.stopsAt disk [] (.dir entries) := Discovery.stopsAt_withoutLinks hlisting [] _
    rw [hstarts.walk_eq, hstarts'.walk_eq, hstops]

/-- a project with a source file, one in an excluded directory, one in a directory that must not be
listed, and these links -/
def projectWith (links : List (String × FileTree)) : Disk where
  root := .dir [("work", .dir (("a.PHP", .file []) :: ("lib", .dir [("b.php", .file [])]) ::
    ("own", .dir [("c.php", .file [])]) :: links))]
  cwd := ["work"]
  faults := { Faults.none with
    listing := fun names => if names = ["work", "own"] then some .accessDenied else none }

def phpBesideLib : Selection := ⟨[".php"], ["l?b"]⟩

theorem parse_phpBesideLib :
    ∀ pattern ∈ phpBesideLib.excluded, ∃ g, Glob.parse pattern = .ok g := by
  have hparse : (Glob.parse "l?b").isOk = true := by decide +kernel
  intro pattern hp
  obtain rfl := List.mem_singleton.mp hp
  cases h : Glob.parse "l?b" with
  | error e =>
    rw [h] at hparse
    cases hparse
  | ok g => exact ⟨g, rfl⟩

def ownSkip : Skip :=
  ⟨⟨"/work/own"⟩, "IO error for operation on /work/own: Permission denied (os error 13)"⟩

/-- a link to the directory in which it stands -/
theorem discover_exact_linked :
    let linked := projectWith [("d.php", .link "../work")]
    ∃ d, discover linked ⟨"."⟩ phpBesideLib = .ok d ∧
      d.files linked = [⟨"/work/a.PHP"⟩] ∧ d.unlisted linked = [ownSkip] ∧
      (∃ below, d.pathOf below = ⟨"/work/a.PHP"⟩ ∧
        phpBesideLib.Selects linked ["work"] below) ∧
      (∃ below e, d.skipAt below e = ownSkip ∧ phpBesideLib.Bars linked ["work"] below e) ∧
      d.walk (projectWith []) = d.walk linked := by
  intro linked
  have hlib : (FileTree.dir [("b.php", .file [])]).WellFormed :=
    .dir (by decide) (by decide) fun e he => List.mem_singleton.mp he ▸ .file []
  have hown : (FileTree.dir [("c.php", .file [])]).WellFormed :=
    .dir (by decide) (by decide) fun e he => List.mem_singleton.mp he ▸ .file []
  have hwell : linked.root.WellFormed := by
    refine .dir (by decide) (by decide) fun e he => List.mem_singleton.mp he ▸ ?_
    refine .dir (by decide) (by decide) (List.forall_mem_cons.mpr ⟨.file [], ?_⟩)
    refine List.forall_mem_cons.mpr ⟨hlib, List.forall_mem_cons.mpr ⟨hown, ?_⟩⟩
    exact List.forall_mem_cons.mpr ⟨.link _, fun e he => absurd he List.not_mem_nil⟩
  obtain ⟨-, -, hfound, hlinks⟩ := discover_exact linked hwell ⟨"."⟩ phpBesideLib
  have hleads : linked.LeadsTo ⟨"."⟩ ["work"] _ := ⟨linked.canonical_here, rfl, by decide +kernel⟩
  have hleads' : (projectWith []).LeadsTo ⟨"."⟩ ["work"] _ :=
    ⟨(projectWith []).canonical_here, rfl, by decide +kernel⟩
  obtain ⟨d, hd, -, -, hmem, -, hunlisted⟩ := hfound _ _ hleads parse_phpBesideLib
  have hwalk : (discover linked ⟨"."⟩ phpBesideLib).toOption.map
      (fun d => (d.files linked, d.unlisted linked)) = some ([⟨"/work/a.PHP"⟩], [ownSkip]) := by
    decide +kernel
  rw [hd] at hwalk
  obtain ⟨hfiles, hskips⟩ := Prod.mk.inj (Option.some.inj hwalk)
  obtain ⟨below, hpath, hselects⟩ := (hmem ⟨"/work/a.PHP"⟩).mp (hfiles ▸ List.mem_cons_self)
  obtain ⟨barred, e, hskip, hbars⟩ := (hunlisted ownSkip).mp (hskips ▸ List.mem_cons_self)
  obtain ⟨-, hsame⟩ := hlinks (projectWith []) _ _ _ hleads hleads' rfl fun _ => rfl
  exact ⟨d, hd, hfiles, hskips, ⟨below, hpath.symm, hselects⟩, ⟨barred, e, hskip.symm, hbars⟩,
    hsame d hd⟩

namespace Disk

theorem fullBytes_replicate (n : Nat) (name : String) :
    fullBytes (List.replicate n name) = n * (name.utf8ByteSize + 1) + 1 := by
  have hpieces : pieceBytes (List.replicate n name) = n * (name.utf8ByteSize + 1) := by
    induction n with
    | zero => rw [Nat.zero_mul]; rfl
    | succ n ih => rw [List.replicate_succ, Nat.succ_mul, ← ih, Nat.add_comm]; rfl
  rw [← hpieces, Nat.add_comm]
  rfl

end Disk

/-- a working directory so far down that the path from the root to it is too long -/
def deepDisk : Disk := .bare (List.replicate 21 (String.ofList (List.replicate 200 'd')))

theorem listingFault?_deepDisk : deepDisk.listingFault? deepDisk.cwd = some .nameTooLong := by
  have hsize : (String.ofList (List.replicate 200 'd')).utf8ByteSize = 200 := by decide +kernel
  have hlong : Disk.pathLimit < Disk.fullBytes deepDisk.cwd := by
    rw [deepDisk, Disk.bare, Disk.fullBytes_replicate, hsize]
    decide
  rw [Disk.listingFault?, if_pos hlong]

/-- **A directory that exists need not be one that can be listed.**  Neither a root whose full path
is too long nor one that must not be listed is walked, and a source file below a directory that
must not be listed is not found. -/
theorem discover_unlistable :
    deepDisk.canonical ⟨"."⟩ = .ok deepDisk.cwd ∧
    deepDisk.root.at? deepDisk.cwd = some (.dir []) ∧
    discover deepDisk ⟨"."⟩ .default =
      .error (.unresolvableRoot ⟨"."⟩ (.unreachable .nameTooLong)) ∧
    (projectWith []).canonical ⟨"own"⟩ = .ok ["work", "own"] ∧
    (projectWith []).root.at? ["work", "own"] = some (.dir [("c.php", .file [])]) ∧
    discover (projectWith []) ⟨"own"⟩ .default =
      .error (.unresolvableRoot ⟨"own"⟩ (.unreachable .accessDenied)) ∧
    ∃ d, discover (projectWith []) ⟨"."⟩ .default = .ok d ∧
      d.pathOf ["own", "c.php"] ∉ d.files (projectWith []) := by
  have hdeep : deepDisk.root.at? deepDisk.cwd = some (.dir []) := FileTree.at?_insert_dir _
  have hown : (projectWith []).canonical ⟨"own"⟩ = .ok ["work", "own"] := by decide +kernel
  have hfiles : (discover (projectWith []) ⟨"."⟩ .default).toOption.any
      (fun d => decide (d.pathOf ["own", "c.php"] ∉ d.files (projectWith []))) = true := by
    decide +kernel
  refine ⟨deepDisk.canonical_here, hdeep,
    discover_of_listingFault deepDisk.canonical_here hdeep listingFault?_deepDisk, hown, rfl,
    discover_of_listingFault hown rfl (by decide +kernel), ?_⟩
  cases hd : discover (projectWith []) ⟨"."⟩ .default with
  | error e =>
    rw [hd] at hfiles
    cases hfiles
  | ok d =>
    rw [hd] at hfiles
    exact ⟨d, rfl, of_decide_eq_true hfiles⟩

end VersionFloor
