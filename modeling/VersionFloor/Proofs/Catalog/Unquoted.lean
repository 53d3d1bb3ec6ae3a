import VersionFloor.Catalog.Format
import VersionFloor.Config.Reader
import VersionFloor.Proofs.Catalog.Fields
import VersionFloor.Proofs.Data.Json.Decimal
import VersionFloor.Proofs.Data.Yaml.Decimal
import VersionFloor.Proofs.Version.Order

/-!
# Catalogs: versions without quotes

A value that has a text is that version wherever a catalog or the settings may have one
(`standsFor_of_scalar?`), and the text of a bare numeral is that of the number it is read as.  Zeros
at the end are lost on the way, so a bare numeral means what is written unless it ends in a zero
that counts (`Numeral.unquoted_iff`).
-/

namespace VersionFloor

open Data Decimal Text

namespace Listing

/-! ### one field of a record or a list -/

/-- the places of the field `i`: `slot v` is a value with `v` in its place -/
inductive Slot (names : List (List String)) (i : Nat) : (Value → Value) → Prop
  | record {key : Value} (hkey : fieldOf? names key = some (some i))
      (front back : List (Value × Value)) :
      Slot names i fun v => .record (front ++ (key, v) :: back)
  | item {front : List Value} (hfront : front.length = i) (back : List Value) :
      Slot names i fun v => .list (front ++ v :: back)

variable {names : List (List String)} {i : Nat} {slot : Value → Value}

theorem Slot.ne_null (h : Slot names i slot) (v : Value) : slot v ≠ .null := by
  cases h <;> exact Value.noConfusion

/-- the other fields do not depend on it -/
theorem fields?_of_slot (h : Slot names i slot) (v w : Value) :
    fields? names (slot v) = (fields? names (slot w)).map (·.set i v) := by
  cases h with
  | @record key hkey front back =>
    -- the order of the fields is nothing, so this one may be put last among those that are read
    have hput (v : Value) : fieldsOfRecord? names (front ++ (key, v) :: back) =
        (fieldsOfRecord? names (front ++ back)).bind (place (some i) v) := by
      rw [fieldsOfRecord?_perm names List.perm_middle, fieldsOfRecord?_eq_bind,
        putField_of_some hkey]
    show (fieldsOfRecord? names _).map _ = ((fieldsOfRecord? names _).map _).map _
    rw [hput v, hput w]
    cases fieldsOfRecord? names (front ++ back) with
    | none => rfl
    | some values =>
      show (place (some i) v values).map _ = ((place (some i) w values).map _).map _
      rw [place, place]
      split
      · rfl
      · simp [List.map_set]
  | item hfront back =>
    unfold fields?
    simp only [List.length_append, List.length_cons]
    split
    · simp [hfront]
    · rfl

/-- the symbol that an entry gives -/
def symbol? (v : Value) : Option Symbol := do (← entry? v).symbol?

/-- a version reads as the text it has -/
theorem entry?_of_slot (h : Slot entryNames 2 slot) {v : Value} {s : Option String}
    (hv : scalar? v = some s) :
    entry? (slot v) = (fun d : Draft => { d with version := s }) <$> entry? (slot .null) := by
  unfold entry?
  rw [fields?_of_slot h v .null, fields?_of_slot h .null .null]
  cases fields? entryNames (slot .null) with
  | none => rfl
  | some vs =>
    match vs with
    | [name, owner, _, extension, description] =>
      have hnull : scalar? .null = some none := rfl
      simp only [Option.map_some, List.set_cons_succ, List.set_cons_zero, Option.bind_eq_bind,
        Option.bind_some, hv, hnull]
      cases text? name <;> cases text? owner <;> cases extension? extension <;>
        cases text? description <;> rfl
    | [] => rfl
    | [_] => rfl
    | [_, _] => rfl
    | [_, _, _] => rfl
    | [_, _, _, _] => rfl
    | _ :: _ :: _ :: _ :: _ :: _ :: _ => rfl

theorem extension?_of_slot (h : Slot extensionNames 1 slot) {v : Value} {s : Option String}
    (hv : scalar? v = some s) :
    extension? (slot v) =
      (extension? (slot .null)).map (Option.map fun e => { e with version := s }) := by
  have hne := h.ne_null v
  have hne' := h.ne_null .null
  have hnull : scalar? .null = some none := rfl
  simp only [extension?]
  rw [fields?_of_slot h v .null, fields?_of_slot h .null .null]
  cases fields? extensionNames (slot .null) with
  | none => rfl
  | some vs =>
    match vs with
    | [name, _] =>
      simp only [Option.map_some, List.set_cons_succ, List.set_cons_zero, Option.bind_eq_bind,
        Option.bind_some, hv, hnull]
      cases text? name <;> rfl
    | [] => rfl
    | [_] => rfl
    | _ :: _ :: _ :: _ => rfl

end Listing

/-! ### settings -/

namespace Config

open Yaml

theorem scalarValue?_nullTag (style : Style) (text : String) :
    scalarValue? (some (coreTag "null")) style text = if isNull text then some .null else none := by
  have hlocal : ¬ isLocal (some (coreTag "null")) = true := by decide
  have hbool : coreTag "null" ≠ coreTag "bool" := by decide
  have hint : coreTag "null" ≠ coreTag "int" := by decide
  have hfloat : coreTag "null" ≠ coreTag "float" := by decide
  simp only [scalarValue?, if_neg hlocal, if_neg hbool, if_neg hint, if_neg hfloat, if_pos]

/-- what has a value other than null is given -/
theorem given?_scalar (d : Document) {anchor : Option Nat} {tag : Option String} {style : Style}
    {text : String} {v : Value} (h : scalarValue? tag style text = some v) (hv : v ≠ .null) :
    given? d (.scalar anchor tag style text) = some (some (.scalar anchor tag style text)) := by
  show (if style ≠ .plain then _ else _) = _
  split
  · rfl
  · rename_i hstyle
    have hplain : style = .plain := not_not.mp hstyle
    subst hplain
    cases tag with
    | none =>
      have hnull : ¬ (text = "" ∨ isNull text = true) := by
        intro hnull
        rw [scalarValue?, if_pos rfl, plainValue?, if_pos hnull] at h
        exact hv (Option.some.inj h).symm
      exact if_neg hnull
    | some t =>
      have htag : t ≠ coreTag "null" := by
        rintro rfl
        rw [scalarValue?_nullTag] at h
        split at h
        · exact hv (Option.some.inj h).symm
        · cases h
      exact if_neg htag

theorem optional?_scalar {α : Type} {d : Document} {s : Settings} {name : String}
    {read? : Node → Option α} {anchor : Option Nat} {tag : Option String} {style : Style}
    {text : String} (hs : setting? s name = some (some (.scalar anchor tag style text))) {v : Value}
    (h : scalarValue? tag style text = some v) (hv : v ≠ .null) :
    optional? d s name read? = (read? (.scalar anchor tag style text)).map some := by
  unfold optional?
  rw [hs]
  show (given? d _).bind _ = _
  rw [given?_scalar d h hv]
  show (read? _).bind _ = _
  cases read? (.scalar anchor tag style text) <;> rfl

theorem versionSetting?_scalar (d : Document) {anchor : Option Nat} {tag : Option String}
    {style : Style} {text : String} {v : Value} (h : scalarValue? tag style text = some v) :
    versionSetting? d (.scalar anchor tag style text) = (Listing.scalar? v).bind id := by
  unfold versionSetting? Document.valueOf?
  rw [valueIn_scalar, h]
  rfl

end Config

/-! ### versions -/

open Listing in
/-- a value that is this version wherever a catalog or the settings have one -/
structure StandsFor (v : Value) (w : Version) : Prop where
  /-- the other fields of an entry do not matter -/
  entry {slot : Value → Value} (h : Slot entryNames 2 slot) :
    symbol? (slot v) = (symbol? (slot .null)).map fun s => { s with minVersion := some w }
  extension {slot : Value → Value} (h : Slot extensionNames 1 slot) :
    (extension? (slot v)).map (·.bind ExtensionDraft.extension?) =
      ((extension? (slot .null)).map (·.bind ExtensionDraft.extension?)).map
        (Option.map fun e => { e with minVersion := some w })
  setting {d : Yaml.Document} {s : Config.Settings} {anchor : Option Nat} {tag : Option String}
    {style : Yaml.Style} {text : String}
    (hs : Config.setting? s "target_version" = some (some (.scalar anchor tag style text)))
    (h : Yaml.scalarValue? tag style text = some v) :
    (Config.optional? d s "target_version" (Config.versionSetting? d)).map
      (·.bind Version.parse?) = some (some w)

theorem standsFor_of_scalar? {v : Value} {s : String} {w : Version}
    (hv : Listing.scalar? v = some (some s)) (hw : Version.parse? s = some w) : StandsFor v w where
  entry h := by
    unfold Listing.symbol?
    rw [Listing.entry?_of_slot h hv]
    cases Listing.entry? _ with
    | none => rfl
    | some d =>
      show Draft.symbol? { d with version := some s } = (Draft.symbol? d).map _
      unfold Draft.symbol?
      cases d.name.bind nonBlank? with
      | none => rfl
      | some name =>
        show some _ = some _
        rw [Option.bind_some, hw]
  extension h := by
    rw [Listing.extension?_of_slot h hv]
    cases Listing.extension? _ with
    | none => rfl
    | some e =>
      cases e with
      | none => rfl
      | some e =>
        show some (ExtensionDraft.extension? { e with version := some s }) =
          some ((ExtensionDraft.extension? e).map _)
        unfold ExtensionDraft.extension?
        cases e.name.bind nonBlank? with
        | none => rfl
        | some name =>
          show some (some _) = some (some _)
          rw [Option.bind_some, hw]
  setting hs h := by
    have hne : v ≠ .null := by
      rintro rfl
      cases hv
    rw [Config.optional?_scalar hs h hne, Config.versionSetting?_scalar _ h, hv]
    exact congrArg some hw

/-! ### numerals -/

namespace Numeral

/-- A numeral without quotes is this number: as a token in JSON, where no zero may stand in front of
it, and as a plain scalar in YAML. -/
structure ReadsAs (n : Numeral) (x : Number) : Prop where
  token {rest : List Char} (hlead : n.whole.head? = some '0' → n.whole.length = 1)
    (hrest : ¬ Json.GoesOn rest) : Json.takeToken (n.text ++ rest) = some (.number x, rest)
  line {indent pads : Nat} (hpads : pads < indent) {rest : List Char}
    (hrest : ∀ ch ∈ rest.head?, Yaml.isGap (some ch) = false) {c : Yaml.Cursor}
    (hc : c.rest = n.text ++ '\n' :: (List.replicate pads ' ' ++ rest)) :
    Yaml.takePlain false indent c =
      some (n.text, true, ((c.skip n.text.length).skipBreak).skip pads)
  scalar : Yaml.scalarValue? none .plain (String.ofList n.text) = some (.number x)

/-- **A bare numeral means what is written unless it ends in a zero that counts.**  It stands for a
version without the zeros at its end, so it has the numbers of the quoted text, and compares like it
with all versions, just where these zeros are none or all that is behind the point. -/
theorem unquoted_iff (n : Numeral) (h : n.IsShort) :
    ∃ (x : Number) (v w : Version),
      n.ReadsAs x ∧ StandsFor (.number x) w ∧ StandsFor (.text (String.ofList n.text)) v ∧
      Version.parse? (String.ofList n.text) = some v ∧
      v.segments = [digitsNumber n.whole, digitsNumber n.fraction] ∧
      Version.compareSegments w.segments [digitsNumber n.whole, digitsNumber n.kept] = .eq ∧
      (Version.compareSegments w.segments v.segments = .eq ↔
        (∀ c ∈ n.fraction, c = '0') ∨ n.fraction.getLast? ≠ some '0') ∧
      ((∀ u : Version, w.exceeds u = v.exceeds u ∧ u.exceeds w = u.exceeds v) ↔
        (∀ c ∈ n.fraction, c = '0') ∨ n.fraction.getLast? ≠ some '0') := by
  obtain ⟨b, w, hb, hw, hkept⟩ := h.exists_text
  obtain ⟨v, hv, hsegments⟩ := n.segments_eq (h.digits_lt.trans (by decide))
  have hsame : Version.compareSegments w.segments v.segments = .eq ↔
      (∀ c ∈ n.fraction, c = '0') ∨ n.fraction.getLast? ≠ some '0' := by
    rw [Std.TransCmp.congr_left hkept, hsegments]
    exact n.compareSegments_kept_iff
  have hread : n.ReadsAs (.double (.finite false b)) :=
    { token := fun hlead hrest => Json.takeToken_numeral hrest h hb hlead
      line := fun hpads _ hrest _ hc => Yaml.takePlain_text n hpads hrest hc
      scalar := Yaml.scalarValue?_text n hb }
  have hbare : StandsFor (.number (.double (.finite false b))) w :=
    standsFor_of_scalar? rfl (by rw [← hw]; simp [Number.text, Double.text])
  have hquoted : StandsFor (.text (String.ofList n.text)) v := standsFor_of_scalar? rfl hv
  exact ⟨_, v, w, hread, hbare, hquoted, hv, hsegments, hkept, hsame,
    (Version.forall_exceeds_iff w v).trans hsame⟩

/-- no zero at the end of 8.1 -/
theorem unquoted_iff_short :
    ∃ (n : Numeral) (x : Number) (v w : Version), n.text = "8.1".toList ∧ n.IsShort ∧
      n.ReadsAs x ∧ StandsFor (.number x) w ∧ StandsFor (.text "8.1") v ∧
      ∀ u : Version, w.exceeds u = v.exceeds u ∧ u.exceeds w = u.exceeds v := by
  let n : Numeral := ⟨['8'], ['1'], List.cons_ne_nil _ _, List.cons_ne_nil _ _,
    List.forall_mem_singleton.mpr rfl, List.forall_mem_singleton.mpr rfl⟩
  have hshort : n.IsShort := by
    show 1 + 1 ≤ 15
    decide
  obtain ⟨x, v, w, hread, hbare, hquoted, -, -, -, -, hcompare⟩ := unquoted_iff n hshort
  exact ⟨n, x, v, w, rfl, hshort, hread, hbare, hquoted, hcompare.mpr (.inr (by decide))⟩

/-- the zero of 8.10 is lost without quotes, and with it nine versions -/
theorem yaml_parse_unquoted :
    ∃ v w : Version, Version.parse? "8.10" = some v ∧
      Format.yaml.parse "- name: f\n  minVersion: \"8.10\"\n" =
        .ok [⟨"f", none, some v, none, none⟩] ∧
      Format.yaml.parse "- name: f\n  minVersion: 8.10\n" =
        .ok [⟨"f", none, some w, none, none⟩] ∧
      Version.compareSegments w.segments v.segments ≠ .eq ∧ v.exceeds w = true := by
  have hv : (⟨"8.10", by decide⟩ : Version).segments = [8, 10] := by decide
  have hw : (⟨"8.1", by decide⟩ : Version).segments = [8, 1] := by decide
  refine ⟨⟨"8.10", by decide⟩, ⟨"8.1", by decide⟩, by decide, by decide +kernel, by decide +kernel,
    ?_, ?_⟩
  · rw [hv, hw]
    simp [Version.compareSegments]
  · rw [Version.exceeds, hv, hw]
    simp [Version.compareSegments, Nat.compare_eq_gt]

end Numeral

end VersionFloor
