import VersionFloor.Catalog.Markup
import VersionFloor.Proofs.Data.Xml.Node
import VersionFloor.Proofs.Data.Xml.Text

/-!
# Catalogs: entries as elements

A layout says what stands around the elements and how their texts are spelled; whatever that is, the
reader finds exactly the fields that were written (`drafts_text`).
-/

namespace VersionFloor.Markup

open Data.Xml

structure Layout where
  /-- what stands in front of the root between question marks -/
  declaration : Option (List Char)
  /-- the attributes of the root -/
  attributes : List Char
  /-- in front of an element, or of a closing tag, at this indentation -/
  line : Nat → List Char
  spell : Char → List Char
  declared : ∀ content ∈ declaration, IsDeclaration content
  tail : IsTail attributes
  wellFormed : Attribute.wellFormed attributes = true
  blank_line : ∀ indent, ∀ c ∈ line indent, isSpace c = true
  spells : ∀ c, Spells [c] (spell c)

namespace Layout

variable (l : Layout)

def spelled (s : String) : List Char := s.toList.flatMap l.spell

/-- nothing for a field that is absent -/
def field (name : String) (value : Option String) : List Node :=
  (value.map fun s => .element name.toList [] (textNodes (l.spelled s))).toList

/-- elements on lines of their own -/
def lay (indent : Nat) (ns : List Node) : List Node :=
  behind (l.line (indent + 2)) ns ++ textNodes (l.line indent)

def extensionContent (e : ExtensionDraft) : List Node :=
  l.lay 4 (l.field "name" e.name ++ l.field "version" e.version)

def extensionElement (e : ExtensionDraft) : Node :=
  .element "extension".toList [] (l.extensionContent e)

def entryContent (d : Draft) : List Node :=
  l.lay 2 (l.field "name" d.name ++ l.field "version" d.version ++ l.field "class" d.owner ++
    (d.extension.map l.extensionElement).toList ++ l.field "description" d.description)

def entryElement (d : Draft) : Node := .element "function".toList [] (l.entryContent d)

def rootElement (ds : List Draft) : Node :=
  .element "functions".toList l.attributes (l.lay 0 (ds.map l.entryElement))

def text (ds : List Draft) : String :=
  String.ofList (declare l.declaration ++ (l.line 0 ++ (write (l.rootElement ds) ++ l.line 0)))

/-! ### what is written is sound -/

theorem spells_spelled (s : String) : Spells s.toList (l.spelled s) :=
  spells_flatMap l.spells s.toList

theorem not_mem_line (indent : Nat) : '<' ∉ l.line indent :=
  not_mem_of_blank (l.blank_line indent) (by decide)

theorem sound_field {name : String} (hname : IsName name.toList) (value : Option String) :
    ∀ n ∈ l.field name value, Sound n ∧ isText n = false := by
  intro n hn
  obtain ⟨s, -, rfl⟩ := Option.map_eq_some_iff.mp (Option.mem_toList.mp hn)
  exact ⟨⟨hname, isTail_nil, soundAll_textNodes (l.spells_spelled s).not_mem⟩, rfl⟩

theorem soundAll_lay (indent : Nat) {ns : List Node}
    (hns : ∀ n ∈ ns, Sound n ∧ isText n = false) : SoundAll (l.lay indent ns) :=
  soundAll_behind (l.not_mem_line _) (l.not_mem_line _) hns

theorem sound_extensionElement (e : ExtensionDraft) : Sound (l.extensionElement e) := by
  refine ⟨by decide, isTail_nil, l.soundAll_lay 4 ?_⟩
  intro n hn
  rcases List.mem_append.mp hn with hn | hn
  · exact l.sound_field (by decide) e.name n hn
  · exact l.sound_field (by decide) e.version n hn

theorem sound_entryElement (d : Draft) : Sound (l.entryElement d) := by
  refine ⟨by decide, isTail_nil, l.soundAll_lay 2 ?_⟩
  intro n hn
  simp only [List.mem_append] at hn
  rcases hn with (((hn | hn) | hn) | hn) | hn
  · exact l.sound_field (by decide) d.name n hn
  · exact l.sound_field (by decide) d.version n hn
  · exact l.sound_field (by decide) d.owner n hn
  · obtain ⟨e, -, rfl⟩ := Option.map_eq_some_iff.mp (Option.mem_toList.mp hn)
    exact ⟨l.sound_extensionElement e, rfl⟩
  · exact l.sound_field (by decide) d.description n hn

theorem sound_rootElement (ds : List Draft) : Sound (l.rootElement ds) := by
  refine ⟨by decide, l.tail, l.soundAll_lay 0 ?_⟩
  intro n hn
  obtain ⟨d, -, rfl⟩ := List.mem_map.mp hn
  exact ⟨l.sound_entryElement d, rfl⟩

theorem root_text (ds : List Draft) : root (l.text ds) = l.rootElement ds :=
  root_document l.declared (l.blank_line 0) (l.sound_rootElement ds)

end Layout

/-! ### reading texts and blanks -/

theorem resolve_blanks {blanks : List Char} (hblanks : ∀ c ∈ blanks, isSpace c = true) :
    resolve blanks = some blanks := by
  refine resolve_of_spells ?_
  induction blanks with
  | nil => exact .nil
  | cons c blanks ih =>
    have hc := hblanks c List.mem_cons_self
    refine .plain ?_ ?_ (ih fun d hd => hblanks d (List.mem_cons_of_mem _ hd))
    · rintro rfl
      cases hc
    · rintro rfl
      cases hc

theorem skipNode_blanks {blanks : List Char} (hblanks : ∀ c ∈ blanks, isSpace c = true) :
    skipNode (.text blanks) = .ok () := by
  rw [skipNode, resolve_blanks hblanks]
  rfl

theorem textOf?_textNodes {s raw : List Char} (h : Spells s raw) :
    textOf? (textNodes raw) = some s := by
  unfold textNodes
  split
  · rename_i hnil
    rw [hnil] at h
    cases h
    rfl
  · rw [textOf?, resolve_of_spells h]
    exact congrArg some (List.append_nil s)

theorem hides_nil {scope : Scope} (hscope : scope.isNil = false) : scope.hides [] = false := by
  rw [Scope.hides, hscope]
  rfl

theorem entryFields_blanks {blanks : List Char} (hblanks : ∀ c ∈ blanks, isSpace c = true)
    (scope : Scope) (d : Draft) (ns : List Node) :
    entryFields scope d (textNodes blanks ++ ns) = entryFields scope d ns := by
  unfold textNodes
  split
  · rfl
  · rw [List.singleton_append, entryFields, skipNode_blanks hblanks]
    · rfl
    · simp

theorem extensionFields_blanks {blanks : List Char} (hblanks : ∀ c ∈ blanks, isSpace c = true)
    (scope : Scope) (e : ExtensionDraft) (ns : List Node) :
    extensionFields scope e (textNodes blanks ++ ns) = extensionFields scope e ns := by
  unfold textNodes
  split
  · rfl
  · rw [List.singleton_append, extensionFields, skipNode_blanks hblanks]
    · rfl
    · simp

theorem entries_blanks {blanks : List Char} (hblanks : ∀ c ∈ blanks, isSpace c = true)
    (scope : Scope) (run : Option (List Char)) (seen : Bool) (ns : List Node) :
    entries scope run seen (textNodes blanks ++ ns) = entries scope run seen ns := by
  unfold textNodes
  split
  · rfl
  · have hcontent : isContent (.text blanks) = false := by
      rw [isContent, List.all_eq_true.mpr hblanks]
      rfl
    rw [List.singleton_append, entries, hcontent, Bool.and_false, if_neg (by decide),
      skipNode_blanks hblanks]
    · rfl
    · simp

theorem textField_spelled {s : String} {raw : List Char} (h : Spells s.toList raw)
    (name : List Char) : textField name false none (textNodes raw) = .ok (some s) := by
  rw [textField, if_neg (by decide), if_neg (by decide), textOf?_textNodes h]
  exact congrArg (Except.ok ∘ some) String.ofList_toList

theorem localName_toList (name : String) (h : ':' ∉ name.toList) :
    localName name.toList = name.toList := by
  rw [localName, Text.splitFirst_of_not_mem [] h]

/-! ### reading fields

A field that is absent leaves what is read so far as it is, and one that is written sets it; both
are the same step for each of the readers of texts. -/

section

variable {α : Type} {read : α → List Node → Except CatalogFault α} {get : α → Option String}
  {set : Option String → α → α} {name : String} {blanks : List Char}

theorem read_field (l : Layout)
    (hblanks : ∀ x ns, read x (textNodes blanks ++ ns) = read x ns)
    (helement : ∀ x children ns, read x (.element name.toList [] children :: ns) =
      textField name.toList false (get x) children >>= fun v => read (set v x) ns)
    {x : α} (hget : get x = none) (hset : set none x = x) (value : Option String)
    (ns : List Node) :
    read x (behind blanks (l.field name value) ++ ns) = read (set value x) ns := by
  cases value with
  | none => exact congrArg (read · ns) hset.symm
  | some s =>
    have hsplit : behind blanks (l.field name (some s)) ++ ns =
        textNodes blanks ++ .element name.toList [] (textNodes (l.spelled s)) :: ns := by
      simp [behind, Layout.field]
    rw [hsplit, hblanks, helement, hget, textField_spelled (l.spells_spelled s)]
    rfl

end

section

variable {scope : Scope} (hscope : scope.isNil = false)

include hscope

theorem extensionFields_name (e : ExtensionDraft) (children ns : List Node) :
    extensionFields scope e (.element "name".toList [] children :: ns) =
      textField "name".toList false e.name children >>= fun v =>
        extensionFields scope { e with name := v } ns := by
  rw [extensionFields, hides_nil hscope]
  simp only [localName_toList "name" (by decide), String.ofList_toList]

theorem extensionFields_version (e : ExtensionDraft) (children ns : List Node) :
    extensionFields scope e (.element "version".toList [] children :: ns) =
      textField "version".toList false e.version children >>= fun v =>
        extensionFields scope { e with version := v } ns := by
  rw [extensionFields, hides_nil hscope]
  simp only [localName_toList "version" (by decide), String.ofList_toList]

variable (d : Draft) (children ns : List Node)

theorem entryFields_name :
    entryFields scope d (.element "name".toList [] children :: ns) =
      textField "name".toList false d.name children >>= fun v =>
        entryFields scope { d with name := v } ns := by
  rw [entryFields, hides_nil hscope]
  simp only [localName_toList "name" (by decide), String.ofList_toList]

theorem entryFields_version :
    entryFields scope d (.element "version".toList [] children :: ns) =
      textField "version".toList false d.version children >>= fun v =>
        entryFields scope { d with version := v } ns := by
  rw [entryFields, hides_nil hscope]
  simp only [localName_toList "version" (by decide), String.ofList_toList]

theorem entryFields_owner :
    entryFields scope d (.element "class".toList [] children :: ns) =
      textField "class".toList false d.owner children >>= fun v =>
        entryFields scope { d with owner := v } ns := by
  rw [entryFields, hides_nil hscope]
  simp only [localName_toList "class" (by decide), String.ofList_toList]

theorem entryFields_description :
    entryFields scope d (.element "description".toList [] children :: ns) =
      textField "description".toList false d.description children >>= fun v =>
        entryFields scope { d with description := v } ns := by
  rw [entryFields, hides_nil hscope]
  simp only [localName_toList "description" (by decide), String.ofList_toList]

omit hscope in
theorem entryFields_extension :
    entryFields scope d (.element "extension".toList [] children :: ns) =
      extensionField scope d.extension [] children >>= fun v =>
        entryFields scope { d with extension := v } ns := by
  rw [entryFields]
  simp only [localName_toList "extension" (by decide), String.ofList_toList]

end

/-! ### reading entries -/

namespace Layout

variable (l : Layout) {scope : Scope}

theorem extensionField_content (hscope : scope.isNil = false) (e : ExtensionDraft) :
    extensionField scope none [] (l.extensionContent e) = .ok (some e) := by
  have hinner : (scope.enter []).isNil = false := rfl
  have hblanks := extensionFields_blanks (l.blank_line 6) (scope.enter [])
  have hname := extensionFields_name hinner
  have hversion := extensionFields_version hinner
  have hfields : extensionFields (scope.enter []) ⟨none, none⟩ (l.extensionContent e) = .ok e := by
    rw [extensionContent, lay, behind_append, List.append_assoc, read_field l hblanks hname rfl rfl,
      read_field l hblanks hversion rfl rfl, ← List.append_nil (textNodes (l.line 4)),
      extensionFields_blanks (l.blank_line 4)]
    rfl
  rw [extensionField, hides_nil hscope, hfields]
  rfl

theorem entryFields_given (hscope : scope.isNil = false) {blanks : List Char}
    (hblanks : ∀ d ns, entryFields scope d (textNodes blanks ++ ns) = entryFields scope d ns)
    {d : Draft} (hnone : d.extension = none) (e : Option ExtensionDraft) (ns : List Node) :
    entryFields scope d (behind blanks (e.map l.extensionElement).toList ++ ns) =
      entryFields scope { d with extension := e } ns := by
  cases e with
  | none =>
    cases d
    cases hnone
    rfl
  | some e =>
    have hsplit : behind blanks ((some e).map l.extensionElement).toList ++ ns =
        textNodes blanks ++ l.extensionElement e :: ns := by
      simp [behind]
    rw [hsplit, hblanks, extensionElement, entryFields_extension, hnone,
      l.extensionField_content hscope]
    rfl

theorem entry_content (d : Draft) : entry scope [] (l.entryContent d) = .ok d := by
  have hinner : (scope.enter []).isNil = false := rfl
  have hblanks := entryFields_blanks (l.blank_line 4) (scope.enter [])
  have hname := entryFields_name hinner
  have hversion := entryFields_version hinner
  have howner := entryFields_owner hinner
  have hdescription := entryFields_description hinner
  rw [entry, if_pos (by decide), entryContent, lay]
  simp only [behind_append, List.append_assoc]
  rw [read_field l hblanks hname rfl rfl, read_field l hblanks hversion rfl rfl,
    read_field l hblanks howner rfl rfl, l.entryFields_given hinner hblanks rfl,
    read_field l hblanks hdescription rfl rfl, ← List.append_nil (textNodes (l.line 2)),
    entryFields_blanks (l.blank_line 2)]
  rfl

/-- the first entry opens the run that all the others belong to -/
theorem entries_lay {run : Option (List Char)} {seen : Bool}
    (hrun : run = some "function".toList ∨ run = none ∧ seen = false) (ds : List Draft) :
    entries scope run seen (l.lay 0 (ds.map l.entryElement)) = .ok ds := by
  induction ds generalizing run seen with
  | nil =>
    show entries scope run seen (textNodes (l.line 0)) = .ok []
    rw [← List.append_nil (textNodes _), entries_blanks (l.blank_line 0)]
    rfl
  | cons d ds ih =>
    have hsplit : l.lay 0 ((d :: ds).map l.entryElement) =
        textNodes (l.line 2) ++ l.entryElement d :: l.lay 0 (ds.map l.entryElement) := by
      simp [lay, behind]
    rw [hsplit, entries_blanks (l.blank_line 2), entryElement, entries, l.entry_content]
    -- behind the first entry the run has begun, and the others are taken by their name alone
    rcases hrun with rfl | ⟨rfl, rfl⟩
    · rw [if_pos rfl, ih (.inl rfl)]
      rfl
    · rw [if_neg (by simp), localName_toList "function" (by decide), if_pos String.ofList_toList,
        if_neg (by decide), ih (.inl rfl)]
      rfl

end Layout

/-- **What is written is read**, with every field that was given and no other. -/
theorem drafts_text (l : Layout) (ds : List Draft) : drafts (l.text ds) = .ok ds := by
  rw [drafts, l.root_text, Layout.rootElement]
  dsimp only
  rw [if_pos l.wellFormed]
  exact l.entries_lay (.inr ⟨rfl, rfl⟩) ds

/-! ### with lines and without -/

namespace Layout

/-- one element on a line and two blanks for each level, as the crawler writes it -/
def lines : Layout where
  declaration := some "xml version=\"1.0\" encoding=\"UTF-8\"".toList
  attributes := ' ' :: ("xmlns=\"\" xsi:noNamespaceSchemaLocation=\"functions.xsd\" " ++
    "xmlns:xsi=\"http://www.w3.org/2001/XMLSchema-instance\"").toList
  line indent := '\n' :: List.replicate indent ' '
  spell := escapeChar
  declared content hcontent := by
    rw [← Option.some.inj hcontent]
    exact ⟨by decide, by decide⟩
  tail := {
    apart := fun c hc => by rw [← Option.some.inj hc]; rfl
    bracket := by decide
    quotes := by decide
    slash := by decide }
  wellFormed := by decide +kernel
  blank_line indent c hc := by
    rcases List.mem_cons.mp hc with rfl | hc
    · rfl
    · rw [List.eq_of_mem_replicate hc]
      rfl
  spells := spells_escapeChar

/-- nothing but the elements -/
def dense : Layout where
  declaration := none
  attributes := []
  line _ := []
  spell := escapeChar
  declared _ h := by cases h
  tail := isTail_nil
  wellFormed := by decide +kernel
  blank_line _ _ hc := by cases hc
  spells := spells_escapeChar

/-- an entry with a class and without a version -/
example :
    dense.text [⟨some "a < b", some "C", none, some ⟨some "zip", some "1.1"⟩, none⟩] =
      "<functions><function><name>a &lt; b</name><class>C</class>" ++
        "<extension><name>zip</name><version>1.1</version></extension></function></functions>" := by
  decide +kernel

end Layout

end VersionFloor.Markup
