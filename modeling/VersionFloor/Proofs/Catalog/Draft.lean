import Mathlib.Data.List.Forall2
import Mathlib.Order.Bounds.Basic
import Mathlib.Order.Lattice.Nat
import VersionFloor.Catalog.Draft
import VersionFloor.Proofs.Version.Order

/-!
# Catalogs: from entries to symbols

What becomes a field of a symbol is trimmed and not blank (`normal_of_symbol?`), every entry gives
the symbol in its place, and the first entry without a name spoils them all (`symbols_eq_ok_iff`,
`symbols_eq_error_iff`).
-/

namespace VersionFloor

open Text

/-! ### trimmed texts -/

/-- neither blank nor with blanks around it -/
def IsTrimmed (s : String) : Prop := s ≠ "" ∧ trim s = s

theorem nonBlank?_eq_self_iff {s : String} : nonBlank? s = some s ↔ IsTrimmed s := by
  rw [nonBlank?, IsTrimmed]
  constructor
  · intro h
    split at h
    · cases h
    · rename_i hne
      have htrim := Option.some.inj h
      rw [htrim] at hne
      exact ⟨hne, htrim⟩
  · rintro ⟨hne, htrim⟩
    rw [htrim, if_neg hne]

theorem isTrimmed_of_nonBlank? {s t : String} (h : nonBlank? s = some t) : IsTrimmed t :=
  nonBlank?_eq_self_iff.mp (nonBlank?_of_nonBlank? h)

theorem isTrimmed_of_bind {s : Option String} {t : String} (h : t ∈ s.bind nonBlank?) :
    IsTrimmed t := by
  obtain ⟨u, -, hu⟩ := Option.bind_eq_some_iff.mp h
  exact isTrimmed_of_nonBlank? hu

theorem bind_nonBlank?_of_isTrimmed {s : Option String} (h : ∀ t ∈ s, IsTrimmed t) :
    s.bind nonBlank? = s := by
  cases s with
  | none => rfl
  | some s =>
    rw [Option.bind_some]
    exact nonBlank?_eq_self_iff.mpr (h s rfl)

namespace Version

theorem text_parse? (s : String) : (parse? s).map text = nonBlank? s := by
  unfold parse?
  split
  · rename_i h
    exact h.symm
  · rename_i t h
    exact h.symm

theorem isTrimmed (v : Version) : IsTrimmed v.text := nonBlank?_eq_self_iff.mp v.written

theorem text_bind_parse? (s : Option String) :
    (s.bind parse?).map text = s.bind nonBlank? := by
  cases s with
  | none => rfl
  | some s =>
    rw [Option.bind_some, Option.bind_some]
    exact text_parse? s

end Version

/-! ### symbols of entries -/

/-- every text is trimmed and not blank -/
structure Symbol.Normal (x : Symbol) : Prop where
  name : IsTrimmed x.name
  owner : ∀ owner ∈ x.owner, IsTrimmed owner
  version : ∀ v ∈ x.minVersion, IsTrimmed v.text
  extension : ∀ e ∈ x.extension, IsTrimmed e.name
  extensionVersion : ∀ e ∈ x.extension, ∀ v ∈ e.minVersion, IsTrimmed v.text
  description : ∀ t ∈ x.description, IsTrimmed t

/-- An entry makes a symbol of its trimmed texts; blank ones are absent, and so is all of an
extension without a name. -/
structure Draft.Makes (d : Draft) (x : Symbol) : Prop where
  name : d.name.bind nonBlank? = some x.name
  owner : d.owner.bind nonBlank? = x.owner
  version : d.version.bind nonBlank? = x.minVersion.map Version.text
  extension : d.extension.bind (·.name.bind nonBlank?) = x.extension.map (·.name)
  extensionVersion : ∀ e ∈ x.extension,
    d.extension.bind (·.version.bind nonBlank?) = e.minVersion.map Version.text
  description : d.description.bind nonBlank? = x.description

def Draft.IsNamed (d : Draft) : Prop := ∃ name ∈ d.name, nonBlank? name ≠ none

namespace Draft

theorem isNamed_iff (d : Draft) : d.IsNamed ↔ ∃ x, d.symbol? = some x := by
  rw [IsNamed, symbol?]
  cases d.name with
  | none => simp
  | some name =>
    cases h : nonBlank? name with
    | none => simp [h]
    | some t => simp [h]

theorem not_isNamed_iff (d : Draft) : ¬ d.IsNamed ↔ d.symbol? = none := by
  rw [isNamed_iff, Option.eq_none_iff_forall_ne_some, not_exists]

theorem makes_of_symbol? {d : Draft} {x : Symbol} (h : d.symbol? = some x) : d.Makes x := by
  obtain ⟨name, hname, rfl⟩ := Option.map_eq_some_iff.mp h
  refine ⟨hname, rfl, (Version.text_bind_parse? d.version).symm, ?_, ?_, rfl⟩
  · cases d.extension with
    | none => rfl
    | some e =>
      show e.name.bind nonBlank? = e.extension?.map (·.name)
      rw [ExtensionDraft.extension?, Option.map_map]
      exact Option.map_id_apply.symm
  · intro e he
    obtain ⟨draft, hdraft, hextension⟩ := Option.bind_eq_some_iff.mp he
    obtain ⟨t, -, rfl⟩ := Option.map_eq_some_iff.mp hextension
    rw [hdraft]
    exact (Version.text_bind_parse? draft.version).symm

/-- an entry makes one symbol only -/
theorem Makes.unique {d : Draft} {x y : Symbol} (hx : d.Makes x) (hy : d.Makes y) : x = y := by
  have hversion {v w : Option Version} (h : v.map Version.text = w.map Version.text) : v = w :=
    Option.map_injective (fun _ _ => Version.ext_text) h
  have hextension : x.extension = y.extension := by
    have hnames := hx.extension.symm.trans hy.extension
    cases hxe : x.extension with
    | none =>
      rw [hxe] at hnames
      exact (Option.map_eq_none_iff.mp hnames.symm).symm
    | some e =>
      rw [hxe] at hnames
      obtain ⟨e', he', hname⟩ := Option.map_eq_some_iff.mp hnames.symm
      have hv := hversion ((hx.extensionVersion e hxe).symm.trans (hy.extensionVersion e' he'))
      rw [he']
      cases e
      cases e'
      cases hname
      cases hv
      rfl
  have hname := Option.some.inj (hx.name.symm.trans hy.name)
  have howner := hx.owner.symm.trans hy.owner
  have hv := hversion (hx.version.symm.trans hy.version)
  have hdescription := hx.description.symm.trans hy.description
  cases x
  cases y
  cases hname
  cases howner
  cases hv
  cases hextension
  cases hdescription
  rfl

theorem makes_iff {d : Draft} {x : Symbol} : d.Makes x ↔ d.symbol? = some x := by
  refine ⟨fun h => ?_, makes_of_symbol?⟩
  have hnamed : d.IsNamed := by
    obtain ⟨name, hname, hsome⟩ := Option.bind_eq_some_iff.mp h.name
    exact ⟨name, hname, fun hnone => by rw [hnone] at hsome; cases hsome⟩
  obtain ⟨y, hy⟩ := d.isNamed_iff.mp hnamed
  rw [hy, h.unique (makes_of_symbol? hy)]

theorem Makes.normal {d : Draft} {x : Symbol} (h : d.Makes x) : x.Normal where
  name := isTrimmed_of_bind h.name
  owner owner howner := isTrimmed_of_bind (h.owner.trans howner)
  version v _ := v.isTrimmed
  extension e he := by
    have hname := h.extension
    rw [he] at hname
    obtain ⟨draft, -, hdraft⟩ := Option.bind_eq_some_iff.mp hname
    exact isTrimmed_of_bind hdraft
  extensionVersion e _ v _ := v.isTrimmed
  description t ht := isTrimmed_of_bind (h.description.trans ht)

/-! ### all symbols -/

theorem symbolsFrom_cons (position : Nat) (d : Draft) (ds : List Draft) :
    symbolsFrom position (d :: ds) =
      match d.symbol? with
      | none => .error (.nameless position)
      | some x => (symbolsFrom (position + 1) ds).map (x :: ·) := by
  rw [symbolsFrom]
  cases d.symbol? with
  | none => rfl
  | some x =>
    dsimp only
    cases symbolsFrom (position + 1) ds <;> rfl

/-- the entries of a catalog make its symbols, one each and in their order -/
theorem symbolsFrom_eq_ok_iff (position : Nat) (ds : List Draft) (xs : List Symbol) :
    symbolsFrom position ds = .ok xs ↔ List.Forall₂ Makes ds xs := by
  induction ds generalizing position xs with
  | nil =>
    rw [symbolsFrom, List.forall₂_nil_left_iff]
    exact ⟨fun h => (Except.ok.inj h).symm, fun h => by rw [h]⟩
  | cons d ds ih =>
    rw [symbolsFrom_cons, List.forall₂_cons_left_iff]
    simp only [makes_iff]
    cases d.symbol? with
    | none => simp
    | some x =>
      show (symbolsFrom (position + 1) ds).map (x :: ·) = .ok xs ↔ _
      simp only [Option.some.injEq, ← ih (position + 1)]
      cases symbolsFrom (position + 1) ds with
      | error fault => simp [Except.map]
      | ok ys => simp [Except.map, eq_comm]

/-- the first entry without a name is named by its position -/
theorem symbolsFrom_of_first {front : List Draft} (hfront : ∀ d ∈ front, d.IsNamed) {d : Draft}
    (hd : ¬ d.IsNamed) (back : List Draft) (position : Nat) :
    symbolsFrom position (front ++ d :: back) = .error (.nameless (position + front.length)) := by
  induction front generalizing position with
  | nil =>
    rw [List.nil_append, symbolsFrom_cons, d.not_isNamed_iff.mp hd]
    rfl
  | cons e front ih =>
    obtain ⟨x, hx⟩ := e.isNamed_iff.mp (hfront e List.mem_cons_self)
    rw [List.cons_append, symbolsFrom_cons, hx]
    show (symbolsFrom (position + 1) (front ++ d :: back)).map (x :: ·) = _
    rw [ih (fun d hd => hfront d (List.mem_cons_of_mem _ hd)), List.length_cons,
      Nat.add_assoc position 1, Nat.add_comm 1]
    rfl

/-- the places of the entries without a name, counted from zero -/
def nameless (ds : List Draft) : Set Nat := {i | ∃ d, ds[i]? = some d ∧ ¬ d.IsNamed}

theorem symbols_eq_error {ds : List Draft} {i : Nat} (h : IsLeast (nameless ds) i) :
    symbols ds = .error (.nameless (i + 1)) := by
  obtain ⟨⟨d, hd, hnameless⟩, hleast⟩ := h
  obtain ⟨hi, hget⟩ := List.getElem?_eq_some_iff.mp hd
  have hfront : ∀ e ∈ ds.take i, e.IsNamed := by
    intro e he
    by_contra hne
    obtain ⟨j, hj, rfl⟩ := List.mem_take_iff_getElem.mp he
    have hle : i ≤ j := hleast ⟨_, List.getElem?_eq_getElem _, hne⟩
    omega
  have hsplit : ds = ds.take i ++ d :: ds.drop (i + 1) := by
    rw [← hget, List.getElem_cons_drop, List.take_append_drop]
  have hlen : (ds.take i).length = i := by
    rw [List.length_take]
    omega
  have herror := symbolsFrom_of_first hfront hnameless (ds.drop (i + 1)) 1
  rw [← hsplit, hlen, Nat.add_comm] at herror
  exact herror

theorem symbols_eq_ok_iff (ds : List Draft) (xs : List Symbol) :
    symbols ds = .ok xs ↔ List.Forall₂ Makes ds xs :=
  symbolsFrom_eq_ok_iff 1 ds xs

theorem exists_symbols {ds : List Draft} (h : ∀ d ∈ ds, d.IsNamed) :
    ∃ xs, symbols ds = .ok xs := by
  simp only [symbols_eq_ok_iff]
  induction ds with
  | nil => exact ⟨[], .nil⟩
  | cons d ds ih =>
    obtain ⟨x, hx⟩ := d.isNamed_iff.mp (h d List.mem_cons_self)
    obtain ⟨xs, hxs⟩ := ih fun e he => h e (List.mem_cons_of_mem _ he)
    exact ⟨x :: xs, .cons (makes_iff.mpr hx) hxs⟩

/-- either every entry makes its symbol, or the first one without a name is the fault -/
theorem symbols_cases (ds : List Draft) :
    (∃ xs, symbols ds = .ok xs ∧ List.Forall₂ Makes ds xs) ∨
      ∃ i, IsLeast (nameless ds) i ∧ symbols ds = .error (.nameless (i + 1)) := by
  by_cases hnamed : ∀ d ∈ ds, d.IsNamed
  · obtain ⟨xs, hxs⟩ := exists_symbols hnamed
    exact .inl ⟨xs, hxs, (symbols_eq_ok_iff ds xs).mp hxs⟩
  · obtain ⟨d, hd, hnameless⟩ : ∃ d ∈ ds, ¬ d.IsNamed := by simpa using hnamed
    obtain ⟨j, hj, rfl⟩ := List.getElem_of_mem hd
    have hsome : (nameless ds).Nonempty := ⟨j, ds[j], List.getElem?_eq_getElem hj, hnameless⟩
    have hleast : IsLeast (nameless ds) (sInf (nameless ds)) :=
      ⟨Nat.sInf_mem hsome, fun _ => Nat.sInf_le⟩
    exact .inr ⟨_, hleast, symbols_eq_error hleast⟩

end Draft

end VersionFloor
