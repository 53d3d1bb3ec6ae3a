import VersionFloor.Data.Json.Reader
import VersionFloor.Proofs.Data.Json.Token

/-!
# JSON: values as they are written

`Writes v s` says that the text `s` writes the value `v` out, however it is laid out; such a text
reads as `v` (`read?_of_writes`).
-/

namespace VersionFloor.Data.Json

/-! ### the tokens of a value -/

/-- only texts can be keys -/
def keyToken : Value → Token
  | .text s => .text s.toList
  | _ => .null

mutual

def valueTokens : Value → List Token
  | .null => [.null]
  | .bool b => [.bool b]
  | .number n => [.number n]
  | .text s => [.text s.toList]
  | .list [] => [.openList, .closeList]
  | .list (v :: vs) => .openList :: (valueTokens v ++ (itemTokens vs ++ [.closeList]))
  | .record [] => [.openRecord, .closeRecord]
  | .record ((k, v) :: fs) => .openRecord :: keyToken k :: .colon ::
      (valueTokens v ++ (fieldTokens fs ++ [.closeRecord]))

/-- the items after the first -/
def itemTokens : List Value → List Token
  | [] => []
  | v :: vs => .comma :: (valueTokens v ++ itemTokens vs)

/-- the fields after the first -/
def fieldTokens : List (Value × Value) → List Token
  | [] => []
  | (k, v) :: fs => .comma :: keyToken k :: .colon :: (valueTokens v ++ fieldTokens fs)

end

def isKey : Value → Bool
  | .text _ => true
  | _ => false

/-- the numbers that are written as they are kept -/
def isWord : Number → Bool
  | .natural n => n ≤ largestWord
  | _ => false

mutual

/-- whether a value can be written out where `room` more levels may be opened -/
def fits : (room : Nat) → Value → Bool
  | _, .number n => isWord n
  | room, .list vs => 0 < room && fitItems (room - 1) vs
  | room, .record fs => 0 < room && fitFields (room - 1) fs
  | _, _ => true

def fitItems : (room : Nat) → List Value → Bool
  | _, [] => true
  | room, v :: vs => fits room v && fitItems room vs

def fitFields : (room : Nat) → List (Value × Value) → Bool
  | _, [] => true
  | room, (k, v) :: fs => isKey k && fits room v && fitFields room fs

end

def Writes (v : Value) (s : String) : Prop :=
  fits depthLimit v = true ∧ Written (valueTokens v) s.toList

/-! ### room -/

theorem fitItems_iff {room : Nat} {vs : List Value} :
    fitItems room vs = true ↔ ∀ v ∈ vs, fits room v = true := by
  induction vs with
  | nil => simp [fitItems]
  | cons v vs ih => simp [fitItems, ih]

theorem fitFields_iff {room : Nat} {fs : List (Value × Value)} :
    fitFields room fs = true ↔ ∀ f ∈ fs, isKey f.1 = true ∧ fits room f.2 = true := by
  induction fs with
  | nil => simp [fitFields]
  | cons f fs ih =>
    obtain ⟨k, v⟩ := f
    simp [fitFields, ih, and_assoc]

theorem fits_succ_list (room : Nat) (vs : List Value) :
    fits (room + 1) (.list vs) = fitItems room vs := by
  simp [fits]

theorem fits_succ_record (room : Nat) (fs : List (Value × Value)) :
    fits (room + 1) (.record fs) = fitFields room fs := by
  simp [fits]

theorem fits_list {room : Nat} {vs : List Value} (h : ∀ v ∈ vs, fits room v = true) :
    fits (room + 1) (.list vs) = true := by
  rw [fits_succ_list, fitItems_iff.mpr h]

theorem fits_record {room : Nat} {fs : List (Value × Value)}
    (h : ∀ f ∈ fs, isKey f.1 = true ∧ fits room f.2 = true) :
    fits (room + 1) (.record fs) = true := by
  rw [fits_succ_record, fitFields_iff.mpr h]

/-! ### reading -/

/-- a state in which a value may begin, with these lists and records around it -/
def Awaits (s : State) (open_ : List Frame) : Prop :=
  ∀ t, t ≠ .closeList → s.step t = State.begin open_ t

theorem awaits_value (open_ : List Frame) : Awaits (.value open_) open_ := fun _ _ => rfl

theorem awaits_first (open_ : List Frame) : Awaits (.first open_) (.list [] :: open_) := by
  intro t ht
  cases t with
  | closeList => exact absurd rfl ht
  | _ => rfl

theorem run_cons (s : State) (t : Token) (ts : List Token) :
    run s (t :: ts) = (s.step t).bind (run · ts) := by
  cases s with
  | after v open_ => cases open_ <;> rfl
  | _ => rfl

theorem run_of_step {s s' : State} {t : Token} (h : s.step t = some s') (ts : List Token) :
    run s (t :: ts) = run s' ts := by
  rw [run_cons, h]
  rfl

theorem step_key {k : Value} (hk : isKey k = true) (fields : List (Value × Value))
    (open_ : List Frame) :
    (State.key fields open_).step (keyToken k) = some (.colon fields k open_) ∧
      (State.nextKey fields open_).step (keyToken k) = some (.colon fields k open_) := by
  cases k with
  | text s =>
    have hs : String.ofList s.toList = s := String.ofList_toList
    constructor
    · show some (State.colon fields (.text (String.ofList s.toList)) open_) = _
      rw [hs]
    · show some (State.colon fields (.text (String.ofList s.toList)) open_) = _
      rw [hs]
  | _ => cases hk

mutual

/-- where a value may begin, its tokens are read as the value -/
theorem run_valueTokens {s : State} {open_ : List Frame} (hs : Awaits s open_) (v : Value)
    {room : Nat} (hfits : fits room v = true) (hroom : open_.length + room ≤ depthLimit)
    (ts : List Token) : run s (valueTokens v ++ ts) = run (.after v open_) ts := by
  cases v with
  | null => exact run_of_step (hs .null (by simp)) ts
  | bool b => exact run_of_step (hs (.bool b) (by simp)) ts
  | number n => exact run_of_step (hs (.number n) (by simp)) ts
  | text s =>
    have hstep := hs (.text s.toList) (by simp)
    rw [State.begin, String.ofList_toList] at hstep
    exact run_of_step hstep ts
  | list items =>
    rw [fits, Bool.and_eq_true, decide_eq_true_iff] at hfits
    obtain ⟨hpos, hitems⟩ := hfits
    have hdeep : open_.length < depthLimit := by omega
    have hopen : s.step .openList = some (.first open_) := by
      rw [hs .openList (by simp), State.begin, if_pos hdeep]
    cases items with
    | nil =>
      show run s (.openList :: .closeList :: ts) = _
      rw [run_of_step hopen]
      exact run_of_step rfl ts
    | cons v vs =>
      rw [fitItems, Bool.and_eq_true] at hitems
      have hinside : (Frame.list [] :: open_).length + (room - 1) ≤ depthLimit := by
        rw [List.length_cons]
        omega
      rw [valueTokens, List.cons_append, run_of_step hopen, List.append_assoc,
        run_valueTokens (awaits_first open_) v hitems.1 hinside, List.append_assoc]
      exact run_itemTokens v [] vs hitems.2 hinside ts
  | record fields =>
    rw [fits, Bool.and_eq_true, decide_eq_true_iff] at hfits
    obtain ⟨hpos, hfields⟩ := hfits
    have hdeep : open_.length < depthLimit := by omega
    have hopen : s.step .openRecord = some (.key [] open_) := by
      rw [hs .openRecord (by simp), State.begin, if_pos hdeep]
    cases fields with
    | nil =>
      show run s (.openRecord :: .closeRecord :: ts) = _
      rw [run_of_step hopen]
      exact run_of_step rfl ts
    | cons field fs =>
      obtain ⟨k, v⟩ := field
      rw [fitFields, Bool.and_eq_true, Bool.and_eq_true] at hfields
      obtain ⟨⟨hk, hv⟩, hfs⟩ := hfields
      have hinside : (Frame.record [] k :: open_).length + (room - 1) ≤ depthLimit := by
        rw [List.length_cons]
        omega
      rw [valueTokens, List.cons_append, run_of_step hopen, List.cons_append,
        run_of_step (step_key hk [] open_).1, List.cons_append, run_of_step rfl,
        List.append_assoc, run_valueTokens (awaits_value _) v hv hinside, List.append_assoc]
      exact run_fieldTokens k v [] fs hfs hinside ts
termination_by structural v

/-- behind an item, the items that follow and the bracket close the list -/
theorem run_itemTokens {open_ : List Frame} (v : Value) (before vs : List Value) {room : Nat}
    (hfits : fitItems room vs = true)
    (hroom : (Frame.list before :: open_).length + room ≤ depthLimit) (ts : List Token) :
    run (.after v (.list before :: open_)) (itemTokens vs ++ (.closeList :: ts)) =
      run (.after (.list (before.reverse ++ v :: vs)) open_) ts := by
  cases vs with
  | nil =>
    have hclose : (State.after v (.list before :: open_)).step .closeList =
        some (.after (.list (before.reverse ++ [v])) open_) := by
      rw [← List.reverse_cons]
      rfl
    exact run_of_step hclose ts
  | cons v' vs =>
    rw [fitItems, Bool.and_eq_true] at hfits
    have hinside : (Frame.list (v :: before) :: open_).length + room ≤ depthLimit := hroom
    have hcomma : (State.after v (.list before :: open_)).step .comma =
        some (.value (.list (v :: before) :: open_)) := rfl
    rw [itemTokens, List.cons_append, run_of_step hcomma, List.append_assoc,
      run_valueTokens (awaits_value _) v' hfits.1 hinside,
      run_itemTokens v' (v :: before) vs hfits.2 hinside, List.reverse_cons,
      List.append_assoc, List.singleton_append]
termination_by structural vs

/-- behind a field, the fields that follow and the bracket close the record -/
theorem run_fieldTokens {open_ : List Frame} (k v : Value) (before fs : List (Value × Value))
    {room : Nat} (hfits : fitFields room fs = true)
    (hroom : (Frame.record before k :: open_).length + room ≤ depthLimit) (ts : List Token) :
    run (.after v (.record before k :: open_)) (fieldTokens fs ++ (.closeRecord :: ts)) =
      run (.after (.record (before.reverse ++ (k, v) :: fs)) open_) ts := by
  cases fs with
  | nil =>
    have hclose : (State.after v (.record before k :: open_)).step .closeRecord =
        some (.after (.record (before.reverse ++ [(k, v)])) open_) := by
      rw [← List.reverse_cons]
      rfl
    exact run_of_step hclose ts
  | cons field fs =>
    obtain ⟨k', v'⟩ := field
    rw [fitFields, Bool.and_eq_true, Bool.and_eq_true] at hfits
    obtain ⟨⟨hk, hv⟩, hfs⟩ := hfits
    have hinside : (Frame.record ((k, v) :: before) k' :: open_).length + room ≤ depthLimit :=
      hroom
    have hcomma : (State.after v (.record before k :: open_)).step .comma =
        some (.nextKey ((k, v) :: before) open_) := rfl
    rw [fieldTokens, List.cons_append, run_of_step hcomma, List.cons_append,
      run_of_step (step_key hk _ open_).2, List.cons_append, run_of_step rfl, List.append_assoc,
      run_valueTokens (awaits_value _) v' hv hinside,
      run_fieldTokens k' v' ((k, v) :: before) fs hfs hinside, List.reverse_cons,
      List.append_assoc, List.singleton_append]
termination_by structural fs

end

/-- **A text reads as the value that it writes out.** -/
theorem read?_of_writes {v : Value} {s : String} (h : Writes v s) : read? s = some v := by
  obtain ⟨hfits, hwritten⟩ := h
  have hrun := run_valueTokens (awaits_value []) v hfits (Nat.le_of_eq (Nat.zero_add _)) []
  rw [List.append_nil] at hrun
  rw [read?, tokens_of_written hwritten, Option.bind_some, hrun]
  rfl

end VersionFloor.Data.Json
