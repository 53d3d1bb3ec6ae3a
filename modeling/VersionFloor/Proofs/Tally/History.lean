import VersionFloor.Proofs.Report.Same
import VersionFloor.Proofs.Tally.Merge

/-!
# Tallies: built in parts

A `History` tells how a tally comes about: events happen to it, and tallies with histories of their
own are merged into it.  Whatever the history, the tally is that of its events one after the other
(`tally_eq`), and the report says the same for every order of them (`report_same`).
-/

namespace VersionFloor.Tally

/-- ways to build a tally -/
inductive History where
  | start
  | event (before : History) (e : Event)
  | merge (into other : History)

namespace History

def tally : History → Tally
  | start => ∅
  | event h e => h.tally.step e
  | merge h g => h.tally.merge g.tally

/-- all that happened, in all parts -/
def events : History → List Event
  | start => []
  | event h e => h.events ++ [e]
  | merge h g => h.events ++ g.events

theorem tally_eq (h : History) : h.tally = ofEvents h.events := by
  induction h with
  | start => rfl
  | event h e ih =>
    show h.tally.step e = ofEvents (h.events ++ [e])
    rw [ofEvents_append, step_eq_merge, ih]
    rfl
  | merge h g ih ih' =>
    show h.tally.merge g.tally = ofEvents (h.events ++ g.events)
    rw [ofEvents_append, ih, ih']

end History

/-- tallies that differ in the order of their skips report the same -/
theorem Alike.report {s t : Tally} (h : s.Alike t) : s.report.Same t.report where
  required := congrArg (fun u => u.required) h.withoutSkips
  functions := congrArg (fun u => u.functions.values) h.withoutSkips
  classes := congrArg (fun u => u.classes.values) h.withoutSkips
  extensions := congrArg (fun u => u.extensions.values) h.withoutSkips
  isUncertain := congrArg (fun u => u.isUncertain) h.withoutSkips
  unversioned := congrArg (fun u => u.unversioned.values) h.withoutSkips
  scanned := congrArg (fun u => u.scanned) h.withoutSkips
  skipped := Skip.map_key_sorted h.skipped

/-- **Order and partition count for nothing**: a report depends on which events happened, not on
their order nor on the tallies they happened to, and a symbol is recorded once at most. -/
theorem report_same (h : History) (es : List Event) (hp : h.events.Perm es) :
    h.tally.report.Same (ofEvents es).report ∧
      ∀ s, .used s ∈ es → h.tally.record s = h.tally := by
  rw [h.tally_eq]
  refine ⟨(ofEvents_perm hp).report, fun s hs => ?_⟩
  exact record_of_mem (hp.mem_iff.mpr hs) ∅

/-- two spellings of a name and of a version, and a skip, in two tallies -/
theorem report_same_two_parts :
    let a : Event := .used (.free "StrLen" (some "5.3"))
    let b : Event := .used (.free "strlen" (some "5.3.0"))
    let c : Event := .skipped ⟨⟨"src//x.php"⟩, "unreadable"⟩
    let h : History := .merge (.merge .start (.event .start b)) (.event (.event .start c) a)
    h.events.Perm [a, b, c] ∧ h.tally.report.Same (ofEvents [a, b, c]).report ∧
      h.tally.record (.free "strlen" (some "5.3.0")) = h.tally := by
  intro a b c h
  have hp : ([b, c] ++ [a]).Perm ([a] ++ [b, c]) := List.perm_append_comm
  have hsame := report_same h [a, b, c] hp
  exact ⟨hp, hsame.1, hsame.2 _ (List.mem_cons_of_mem _ List.mem_cons_self)⟩

end VersionFloor.Tally
