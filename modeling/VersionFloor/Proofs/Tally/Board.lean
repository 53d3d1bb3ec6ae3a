import Mathlib.Logic.Function.Basic
import VersionFloor.Proofs.Tally.Merge

/-!
# Tallies: several side by side

A move lets an event happen to one of them, merges one into another or into itself, or starts one
anew; after any moves each of them is the tally of the events that went into it (`tallies_eq`).
-/

namespace VersionFloor.Tally

open Function

/-- what may happen where several tallies are kept -/
inductive Move (ι : Type) where
  | event (i : ι) (e : Event)
  | merge (into other : ι)
  | reset (i : ι)

namespace Move

variable {ι : Type} [DecidableEq ι]

def tally (ts : ι → Tally) : Move ι → ι → Tally
  | event i e => update ts i ((ts i).step e)
  | merge i j => update ts i ((ts i).merge (ts j))
  | reset i => update ts i ∅

/-- all tallies are empty to begin with -/
def tallies (moves : List (Move ι)) : ι → Tally := moves.foldl tally fun _ => ∅

/-- all that happened to each tally, or to what was merged into it, since it was started -/
def happen (es : ι → List Event) : Move ι → ι → List Event
  | event i e => update es i (es i ++ [e])
  | merge i j => update es i (es i ++ es j)
  | reset i => update es i []

def events (moves : List (Move ι)) : ι → List Event := moves.foldl happen fun _ => []

theorem tally_ofEvents (es : ι → List Event) (m : Move ι) :
    tally (ofEvents ∘ es) m = ofEvents ∘ happen es m := by
  cases m with
  | event i e =>
    have hstep : (ofEvents (es i)).step e = ofEvents (es i ++ [e]) := by
      rw [step_eq_merge, ofEvents_append]
      rfl
    show update (ofEvents ∘ es) i ((ofEvents (es i)).step e) = ofEvents ∘ update es i _
    rw [comp_update, hstep]
  | merge i j =>
    show update (ofEvents ∘ es) i ((ofEvents (es i)).merge (ofEvents (es j))) =
      ofEvents ∘ update es i _
    rw [comp_update, ofEvents_append]
  | reset i => exact (comp_update ofEvents es i []).symm

theorem foldl_tally_ofEvents (moves : List (Move ι)) (es : ι → List Event) :
    moves.foldl tally (ofEvents ∘ es) = ofEvents ∘ moves.foldl happen es := by
  induction moves generalizing es with
  | nil => rfl
  | cons m moves ih => rw [List.foldl_cons, tally_ofEvents, ih, List.foldl_cons]

/-- **Each tally is that of the events that went into it**, whatever became of the others. -/
theorem tallies_eq (moves : List (Move ι)) (i : ι) :
    tallies moves i = ofEvents (events moves i) :=
  congrFun (foldl_tally_ofEvents moves fun _ => []) i

/-! ### what stays -/

theorem mem_update {es : ι → List Event} {i j : ι} {e : Event} {fs : List Event} (he : e ∈ es i)
    (hfs : i = j → e ∈ fs) : e ∈ update es j fs i := by
  by_cases hij : i = j
  · subst hij
    rw [update_self]
    exact hfs rfl
  · rwa [update_of_ne hij]

/-- what went into a tally stays in it until it is started anew -/
theorem mem_happen {m : Move ι} {i : ι} (hm : reset i ≠ m) {es : ι → List Event} {e : Event}
    (he : e ∈ es i) : e ∈ happen es m i := by
  cases m with
  | event j f => exact mem_update he fun h => List.mem_append_left _ (h ▸ he)
  | merge j k => exact mem_update he fun h => List.mem_append_left _ (h ▸ he)
  | reset j => exact mem_update he fun h => absurd (congrArg reset h) hm

theorem mem_events_append {moves more : List (Move ι)} {i : ι} (hmore : reset i ∉ more) {e : Event}
    (he : e ∈ events moves i) : e ∈ events (moves ++ more) i := by
  have hstays : ∀ es : ι → List Event, e ∈ es i → e ∈ more.foldl happen es i := by
    induction more with
    | nil => exact fun _ he => he
    | cons m more ih =>
      rw [List.mem_cons, not_or] at hmore
      exact fun es he => ih hmore.2 _ (mem_happen hmore.1 he)
  rw [events, List.foldl_append]
  exact hstays _ he

end Move

end VersionFloor.Tally
