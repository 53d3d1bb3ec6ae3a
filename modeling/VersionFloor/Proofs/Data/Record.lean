import VersionFloor.Data.Record

/-!
# Plain data: fields that are written and looked up again

A record is put together from pieces with one field at most; a lookup passes the pieces with other
names and finds the one with its own.  What was written there is read from it (`need?_of_named`),
and what was left out is absent or empty again (`may?_of_named`, `items?_of_named`).
-/

namespace VersionFloor.Data

namespace Value

/-- What `write` makes of something is read as it again, and null is not read at all. -/
structure Reads {α : Type} (write : α → Value) (value? : Value → Option α) : Prop where
  read : ∀ a, value? (write a) = some a
  null : value? .null = none

theorem reads_text : Reads .text text? := ⟨fun _ => rfl, rfl⟩

theorem reads_natural : Reads (fun n => .number (.natural n)) natural? := ⟨fun _ => rfl, rfl⟩

theorem reads_bool : Reads .bool bool? := ⟨fun _ => rfl, rfl⟩

section

variable {α : Type} {write : α → Value} {value? : Value → Option α} (h : Reads write value?)

include h

theorem Reads.mapM (l : List α) : (l.map write).mapM value? = some l := by
  induction l with
  | nil => rfl
  | cons a l ih =>
    rw [List.map_cons, List.mapM_cons, h.read, ih]
    rfl

theorem Reads.list : Reads (fun l => .list (l.map write)) (list? value?) := ⟨h.mapM, rfl⟩

end

end Value

namespace Fields

/-- the fields of this name -/
def named (name : String) (fs : Fields) : Fields := fs.filter fun (k, _) => isNamed name k

@[simp] theorem named_append (name : String) (fs gs : Fields) :
    named name (fs ++ gs) = named name fs ++ named name gs := List.filter_append ..

/-! ### the piece with the name -/

section

variable (name : String)

@[simp] theorem named_one (v : Value) : named name (one name v) = one name v := by
  simp [named, one, isNamed]

@[simp] theorem named_given (v : Option Value) : named name (given name v) = given name v := by
  cases v with
  | none => rfl
  | some v => exact named_one name v

@[simp] theorem named_unlessEmpty (items : List Value) :
    named name (unlessEmpty name items) = unlessEmpty name items := by
  rw [unlessEmpty]
  split
  · rfl
  · exact named_one name _

end

/-! ### the other pieces -/

section

variable {name other : String} (h : other ≠ name)

include h

@[simp] theorem named_one_of_ne (v : Value) : named name (one other v) = [] := by
  simp [named, one, isNamed, h]

@[simp] theorem named_given_of_ne (v : Option Value) : named name (given other v) = [] := by
  cases v with
  | none => rfl
  | some v => exact named_one_of_ne h v

@[simp] theorem named_unlessEmpty_of_ne (items : List Value) :
    named name (unlessEmpty other items) = [] := by
  rw [unlessEmpty]
  split
  · rfl
  · exact named_one_of_ne h _

end

/-! ### lookups -/

section

variable {α : Type} {write : α → Value} {value? : Value → Option α} (hr : Value.Reads write value?)
  {name : String} {fs : Fields}

include hr

theorem need?_of_named {a : α} (h : named name fs = one name (write a)) :
    need? name value? fs = some a := by
  rw [named] at h
  rw [need?, get?, h]
  exact hr.read a

theorem may?_of_named {a : Option α} (h : named name fs = given name (a.map write)) :
    may? name value? fs = some a := by
  rw [named] at h
  rw [may?, get?, h]
  cases a with
  | none => rfl
  | some a =>
    have hread := hr.read a
    -- a field with null in it would be read as if it were absent
    cases hv : write a with
    | null =>
      rw [hv, hr.null] at hread
      cases hread
    | _ =>
      rw [hv] at hread
      simp only [given, one, Option.map_some, Option.getD_some, hv, hread, Option.bind_eq_bind,
        Option.bind_some, Option.pure_def]

theorem items?_of_named {l : List α} (h : named name fs = unlessEmpty name (l.map write)) :
    items? name value? fs = some l := by
  rw [named] at h
  rw [items?, get?, h]
  cases l with
  | nil => rfl
  | cons a l => exact hr.list.read (a :: l)

end

end Fields

end VersionFloor.Data
