import Mathlib.Data.List.Nodup
import VersionFloor.Check.Discovery
import VersionFloor.Proofs.File.Tree
import VersionFloor.Proofs.Text.Split

/-!
# Checks: where a walk stops

A walk enters the directories that are neither links nor excluded, as long as they can be listed.
It stops at the source files that it comes to in this way, and at the directories that it cannot
list (`mem_stopsAt`), at each of them once (`nodup_walk`); links lead nowhere, so it does not matter
where they are and what they point to (`stopsIn_withoutLinks`).
-/

namespace VersionFloor

open Text

/-- the path that a step of a walk is about -/
def Found.place : Found → Path
  | .file path => path
  | .unlisted s => s.path

namespace Disk

variable {disk : Disk} {names : List String} {n : FileTree}

theorem at?_of_standing (h : disk.standing names = .ok n) : disk.root.at? names = some n := by
  rw [standing] at h
  split at h
  · cases h
  · split at h
    · rename_i hn
      cases h
      exact hn
    · cases h

theorem standing_of_listed (h : disk.listingFault? names = none)
    (hn : disk.root.at? names = some n) : disk.standing names = .ok n := by
  rw [listingFault?] at h
  split at h
  · cases h
  · rename_i hshort
    rw [standing, if_neg hshort, hn]

end Disk

namespace Discovery

section

variable (d : Discovery) (disk : Disk)

/-! ### the stops below a node -/

theorem stopsIn_eq (here : List String) (entries : List (String × FileTree)) :
    d.stopsIn disk here entries = entries.flatMap fun e =>
      if isLink e.2 || d.excludes (here ++ [e.1]) then []
      else d.stopsAt disk (here ++ [e.1]) e.2 := by
  induction entries with
  | nil => rw [stopsIn, List.flatMap_nil]
  | cons e entries ih => rw [stopsIn, ih, List.flatMap_cons]

theorem mem_stopsIn {here : List String} {s : Stop} {entries : List (String × FileTree)} :
    s ∈ d.stopsIn disk here entries ↔
      ∃ name n, (name, n) ∈ entries ∧ isLink n = false ∧ d.excludes (here ++ [name]) = false ∧
        s ∈ d.stopsAt disk (here ++ [name]) n := by
  rw [stopsIn_eq, List.mem_flatMap]
  constructor
  · rintro ⟨⟨name, n⟩, hmem, h⟩
    split at h
    · cases h
    · rename_i hkept
      rw [Bool.not_eq_true, Bool.or_eq_false_iff] at hkept
      exact ⟨name, n, hmem, hkept.1, hkept.2, h⟩
  · rintro ⟨name, n, hmem, hlink, hexcluded, h⟩
    refine ⟨(name, n), hmem, ?_⟩
    rw [hlink, hexcluded]
    exact h

/-- The walk comes from `here` to the node below: the directories above it can be listed, and
neither they nor the node itself are excluded. -/
structure Enters (here below : List String) : Prop where
  listed : ∀ p, p <+: below → p ≠ below → disk.listingFault? (d.root ++ (here ++ p)) = none
  included : ∀ p, p <+: below → p ≠ [] → d.excludes (here ++ p) = false

theorem enters_nil (here : List String) : d.Enters disk here [] :=
  ⟨fun _ hp hne => absurd (List.prefix_nil.mp hp) hne,
    fun _ hp hne => absurd (List.prefix_nil.mp hp) hne⟩

theorem enters_cons {here below : List String} {name : String} :
    d.Enters disk here (name :: below) ↔
      disk.listingFault? (d.root ++ here) = none ∧ d.excludes (here ++ [name]) = false ∧
        d.Enters disk (here ++ [name]) below := by
  have happend (p : List String) : here ++ [name] ++ p = here ++ name :: p :=
    List.append_assoc here [name] p
  constructor
  · rintro ⟨hlisted, hincluded⟩
    refine ⟨?_, hincluded [name] ⟨below, rfl⟩ (List.cons_ne_nil _ _), fun p hp hne => ?_,
      fun p hp _ => ?_⟩
    · rw [← List.append_nil here]
      exact hlisted [] List.nil_prefix (List.cons_ne_nil _ _).symm
    · rw [happend]
      exact hlisted (name :: p) (List.cons_prefix_cons.mpr ⟨rfl, hp⟩)
        fun h => hne (List.cons.inj h).2
    · rw [happend]
      exact hincluded (name :: p) (List.cons_prefix_cons.mpr ⟨rfl, hp⟩) (List.cons_ne_nil _ _)
  · rintro ⟨hhere, hname, hlisted, hincluded⟩
    constructor
    · intro p hp hne
      cases p with
      | nil => rwa [List.append_nil]
      | cons a p =>
        obtain ⟨rfl, htail⟩ := List.cons_prefix_cons.mp hp
        rw [← happend]
        exact hlisted p htail fun h => hne (h ▸ rfl)
    · intro p hp hne
      cases p with
      | nil => exact absurd rfl hne
      | cons a p =>
        obtain ⟨rfl, htail⟩ := List.cons_prefix_cons.mp hp
        by_cases hnil : p = []
        · rw [hnil]
          exact hname
        · rw [← happend]
          exact hincluded p htail hnil

/-- what a walk stops at: a source file, or a directory that it cannot list -/
inductive EndsAt (names : List String) : FileTree → Option FileError → Prop
  | file {content : Bytes} : (d.root ++ names).getLast?.any d.recognizes = true →
      EndsAt names (.file content) none
  | dir {entries : List (String × FileTree)} {e : FileError} :
      disk.listingFault? (d.root ++ names) = some e → EndsAt names (.dir entries) (some e)

/-- The walk comes from `here`, where this node stands, to what these names lead to, and ends
there. -/
def ComesTo (here : List String) (n : FileTree) (names : List String) (fault : Option FileError) :
    Prop :=
  ∃ below m, names = here ++ below ∧ n.at? below = some m ∧ d.Enters disk here below ∧
    d.EndsAt disk names m fault

/-- a walk ends where it is, or goes on to an entry of a directory that can be listed -/
theorem comesTo_iff {here names : List String} {n : FileTree} {fault : Option FileError} :
    d.ComesTo disk here n names fault ↔
      names = here ∧ d.EndsAt disk here n fault ∨
        disk.listingFault? (d.root ++ here) = none ∧
          ∃ name child, n.child? name = some child ∧ d.excludes (here ++ [name]) = false ∧
            d.ComesTo disk (here ++ [name]) child names fault := by
  constructor
  · rintro ⟨below, m, rfl, hat, henters, hends⟩
    cases below with
    | nil =>
      cases hat
      rw [List.append_nil] at hends ⊢
      exact .inl ⟨rfl, hends⟩
    | cons name below =>
      obtain ⟨hlisted, hincluded, henters⟩ := (d.enters_cons disk).mp henters
      rw [FileTree.at?] at hat
      obtain ⟨child, hchild, hat⟩ := Option.bind_eq_some_iff.mp hat
      refine .inr ⟨hlisted, name, child, hchild, hincluded, below, m, ?_, hat, henters, hends⟩
      exact (List.append_assoc here [name] below).symm
  · rintro (⟨rfl, hends⟩ | ⟨hlisted, name, child, hchild, hincluded, below, m, rfl, hat, henters,
      hends⟩)
    · exact ⟨[], n, (List.append_nil _).symm, rfl, d.enters_nil disk _, hends⟩
    · refine ⟨name :: below, m, List.append_assoc .., ?_,
        (d.enters_cons disk).mpr ⟨hlisted, hincluded, henters⟩, hends⟩
      rw [FileTree.at?, hchild]
      exact hat

theorem not_comesTo_link {here names : List String} {target : String} {fault : Option FileError} :
    ¬ d.ComesTo disk here (.link target) names fault := by
  rw [comesTo_iff]
  rintro (⟨-, hends⟩ | ⟨-, name, child, hchild, -⟩)
  · cases hends
  · cases hchild

/-- **A walk stops at all that it comes to and ends at**, under the names that lead to it. -/
theorem mem_stopsAt {n : FileTree} (h : n.WellFormed) {here names : List String}
    {fault : Option FileError} :
    ⟨names, fault⟩ ∈ d.stopsAt disk here n ↔ d.ComesTo disk here n names fault := by
  induction h generalizing here with
  | file content =>
    rw [stopsAt, comesTo_iff]
    constructor
    · intro hmem
      split at hmem
      · rename_i hlast
        cases List.mem_singleton.mp hmem
        exact .inl ⟨rfl, .file hlast⟩
      · cases hmem
    · rintro (⟨rfl, hends⟩ | ⟨-, name, child, hchild, -⟩)
      · cases hends with
        | file hlast => rw [if_pos hlast]; exact List.mem_singleton_self _
      · cases hchild
  | link target =>
    rw [stopsAt]
    exact iff_of_false List.not_mem_nil (d.not_comesTo_link disk)
  | dir distinct hnames below ih =>
    rw [stopsAt, comesTo_iff]
    cases hlisting : disk.listingFault? (d.root ++ here) with
    | some e =>
      -- nothing below this directory is come to
      constructor
      · intro hmem
        cases List.mem_singleton.mp hmem
        exact .inl ⟨rfl, .dir hlisting⟩
      · rintro (⟨rfl, hends⟩ | ⟨hlisted, -⟩)
        · cases hends with
          | dir hfault =>
            rw [Option.some.inj (hfault.symm.trans hlisting)]
            exact List.mem_singleton_self _
        · cases hlisted
    | none =>
      dsimp only
      rw [mem_stopsIn]
      constructor
      · rintro ⟨name, n, hmem, -, hincluded, hn⟩
        have hchild := (FileTree.lookup_eq_some_iff distinct).mpr hmem
        exact .inr ⟨rfl, name, n, hchild, hincluded, (ih _ hmem).mp hn⟩
      · rintro (⟨rfl, hends⟩ | ⟨-, name, n, hchild, hincluded, hn⟩)
        · -- the walk goes on at a directory that can be listed
          cases hends with
          | dir hfault =>
            rw [hlisting] at hfault
            cases hfault
        · have hmem := (FileTree.lookup_eq_some_iff distinct).mp hchild
          have hlink : isLink n = false := by
            cases n with
            | link target => exact absurd hn (d.not_comesTo_link disk)
            | _ => rfl
          exact ⟨name, n, hmem, hlink, hincluded, (ih _ hmem).mpr hn⟩

/-- the names of a stop at an entry begin with the names that lead to it -/
theorem prefix_of_mem_branch {n : FileTree} (h : n.WellFormed) {here names : List String}
    {skip : Bool} (hmem : names ∈ (if skip then [] else d.stopsAt disk here n).map Stop.names) :
    here <+: names := by
  cases skip with
  | true => cases hmem
  | false =>
    obtain ⟨⟨_, fault⟩, hstop, rfl⟩ := List.mem_map.mp hmem
    obtain ⟨below, _, rfl, -⟩ := (d.mem_stopsAt disk h).mp hstop
    exact List.prefix_append here below

/-- a walk stops once at each place -/
theorem nodup_stopsAt {n : FileTree} (h : n.WellFormed) (here : List String) :
    ((d.stopsAt disk here n).map Stop.names).Nodup := by
  induction h generalizing here with
  | file content =>
    rw [stopsAt]
    split
    · exact List.nodup_singleton here
    · exact List.nodup_nil
  | link target =>
    rw [stopsAt]
    exact List.nodup_nil
  | dir distinct hnames below ih =>
    rename_i entries
    rw [stopsAt]
    split
    · exact List.nodup_singleton here
    · rw [stopsIn_eq, List.map_flatMap, List.nodup_flatMap]
      constructor
      · intro e he
        split
        · exact List.nodup_nil
        · exact ih e he _
      · have hdistinct : entries.Pairwise fun e e' => e.1 ≠ e'.1 := List.pairwise_map.mp distinct
        refine hdistinct.imp_of_mem fun {e e'} he he' hne names hmem hmem' => hne ?_
        -- the name behind `here` tells the two entries apart
        have hprefix := d.prefix_of_mem_branch disk (below e he) hmem
        have hprefix' := d.prefix_of_mem_branch disk (below e' he') hmem'
        have hlen : (here ++ [e.1]).length = (here ++ [e'.1]).length := by
          rw [List.length_append, List.length_append]
          rfl
        have heq := (List.prefix_of_prefix_length_le hprefix hprefix' hlen.le).eq_of_length hlen
        exact List.singleton_inj.mp (List.append_cancel_left heq)

end

/-! ### links -/

mutual

/-- the tree without the links in it -/
def withoutLinks : FileTree → FileTree
  | .dir entries => .dir (withoutLinksIn entries)
  | n => n

def withoutLinksIn : List (String × FileTree) → List (String × FileTree)
  | [] => []
  | (name, n) :: rest =>
    if isLink n then withoutLinksIn rest else (name, withoutLinks n) :: withoutLinksIn rest

end

theorem isLink_withoutLinks (n : FileTree) : isLink (withoutLinks n) = isLink n := by
  cases n <;> rfl

mutual

theorem stopsAt_withoutLinks {d : Discovery} {disk disk' : Disk}
    (hlisting : ∀ names,
      disk'.listingFault? (d.root ++ names) = disk.listingFault? (d.root ++ names))
    (here : List String) (n : FileTree) :
    d.stopsAt disk' here (withoutLinks n) = d.stopsAt disk here n := by
  cases n with
  | file content => rfl
  | link target => rfl
  | dir entries =>
    have hentries := stopsIn_withoutLinks hlisting here entries
    rw [withoutLinks, stopsAt, stopsAt, hlisting, hentries]

/-- **A walk passes all links**: without them it stops in the same places. -/
theorem stopsIn_withoutLinks {d : Discovery} {disk disk' : Disk}
    (hlisting : ∀ names,
      disk'.listingFault? (d.root ++ names) = disk.listingFault? (d.root ++ names))
    (here : List String) (entries : List (String × FileTree)) :
    d.stopsIn disk' here (withoutLinksIn entries) = d.stopsIn disk here entries := by
  match entries with
  | [] => rfl
  | (name, n) :: rest =>
    have hn := stopsAt_withoutLinks hlisting (here ++ [name]) n
    have hrest := stopsIn_withoutLinks hlisting here rest
    rw [withoutLinksIn, stopsIn]
    split
    · rename_i hlink
      rw [hlink, hrest]
      rfl
    · rw [stopsIn, isLink_withoutLinks, hn, hrest]

end

/-! ### paths -/

section

variable {d : Discovery} {disk : Disk}

/-- a path tells the names that it is made of -/
theorem eq_of_pathOf_eq {a b : List String} (ha : ∀ name ∈ d.root ++ a, FileTree.IsEntryName name)
    (hb : ∀ name ∈ d.root ++ b, FileTree.IsEntryName name) (hne : a ≠ []) (hne' : b ≠ [])
    (h : d.pathOf a = d.pathOf b) : a = b := by
  have htext : (joinWith "/" (d.root ++ a)).toList = (joinWith "/" (d.root ++ b)).toList := by
    have hlist := congrArg (fun p : Path => p.text.toList) h
    simpa [pathOf] using hlist
  have hsplit := congrArg (splitAll '/') htext
  have hna : d.root ++ a ≠ [] := List.append_ne_nil_of_right_ne_nil _ hne
  have hnb : d.root ++ b ≠ [] := List.append_ne_nil_of_right_ne_nil _ hne'
  rw [splitAll_joinWith rfl hna fun name hn => (ha name hn).2,
    splitAll_joinWith rfl hnb fun name hn => (hb name hn).2] at hsplit
  have hnames := List.map_injective_iff.mpr (fun _ _ => String.toList_inj.mp) hsplit
  exact List.append_cancel_left hnames

/-- the root of the walk is a directory, and it can be listed -/
structure Starts (d : Discovery) (disk : Disk) (entries : List (String × FileTree)) : Prop where
  dir : disk.root.at? d.root = some (.dir entries)
  listed : disk.listingFault? d.root = none

variable {entries : List (String × FileTree)} (h : d.Starts disk entries)
include h

theorem Starts.walk_eq :
    d.walk disk = (d.stopsAt disk [] (.dir entries)).map d.foundAt := by
  rw [walk, Disk.standing_of_listed h.listed h.dir]

theorem Starts.mem_files {path : Path} :
    path ∈ d.files disk ↔
      ∃ names, path = d.pathOf names ∧ ⟨names, none⟩ ∈ d.stopsAt disk [] (.dir entries) := by
  rw [files, h.walk_eq, List.filterMap_map, List.mem_filterMap]
  constructor
  · rintro ⟨⟨names, fault⟩, hstop, hpath⟩
    cases fault with
    | none => exact ⟨names, (Option.some.inj hpath).symm, hstop⟩
    | some e => cases hpath
  · rintro ⟨names, rfl, hstop⟩
    exact ⟨_, hstop, rfl⟩

theorem Starts.mem_unlisted {skip : Skip} :
    skip ∈ d.unlisted disk ↔
      ∃ names e, skip = d.skipAt names e ∧
        ⟨names, some e⟩ ∈ d.stopsAt disk [] (.dir entries) := by
  rw [unlisted, h.walk_eq, List.filterMap_map, List.mem_filterMap]
  constructor
  · rintro ⟨⟨names, fault⟩, hstop, hskip⟩
    cases fault with
    | none => cases hskip
    | some e => exact ⟨names, e, (Option.some.inj hskip).symm, hstop⟩
  · rintro ⟨names, e, rfl, hstop⟩
    exact ⟨_, hstop, rfl⟩

/-- a walk stops below its root, at something that is there -/
theorem Starts.names_of_mem (hwell : disk.root.WellFormed) {names : List String}
    (hmem : names ∈ (d.stopsAt disk [] (.dir entries)).map Stop.names) :
    (∀ name ∈ d.root ++ names, FileTree.IsEntryName name) ∧ names ≠ [] := by
  obtain ⟨⟨_, fault⟩, hstop, rfl⟩ := List.mem_map.mp hmem
  obtain ⟨_, m, rfl, hat, -, hends⟩ := (d.mem_stopsAt disk (hwell.at? h.dir).1).mp hstop
  constructor
  · refine (hwell.at? (m := m) ?_).2
    rw [FileTree.at?_append, h.dir]
    exact hat
  · rintro hnil
    obtain rfl : _ = [] := hnil
    cases hat
    cases hends with
    | dir hfault =>
      rw [List.append_nil, h.listed] at hfault
      cases hfault

/-- **Every step of a walk is about a path of its own.** -/
theorem Starts.nodup_walk (hwell : disk.root.WellFormed) :
    ((d.walk disk).map Found.place).Nodup := by
  have hplace : Found.place ∘ d.foundAt = d.pathOf ∘ Stop.names := by
    funext ⟨names, fault⟩
    cases fault <;> rfl
  have hdir : (FileTree.dir entries).WellFormed := (hwell.at? h.dir).1
  rw [h.walk_eq, List.map_map, hplace, ← List.map_map]
  refine (d.nodup_stopsAt disk hdir []).map_on fun a ha b hb hpath => ?_
  obtain ⟨hentries, hne⟩ := h.names_of_mem hwell ha
  obtain ⟨hentries', hne'⟩ := h.names_of_mem hwell hb
  exact eq_of_pathOf_eq hentries hentries' hne hne' hpath

end

end Discovery

end VersionFloor
