import VersionFloor.Data.Xml.Node
import VersionFloor.Proofs.Data.Xml.Token

/-!
# XML: trees as they are written

A sound tree is read back from what is written of it, whatever declaration and blanks stand around
it (`root_document`).
-/

namespace VersionFloor.Data.Xml

mutual

def write : Node → List Char
  | .element name attributes children => '<' :: (name ++ (attributes ++ '>' ::
      (writeAll children ++ '<' :: '/' :: (name ++ ['>']))))
  | .text raw => raw
  | .verbatim s => '<' :: '!' :: ("[CDATA[".toList ++ (s ++ [']', ']', '>']))
  | .fault => []

def writeAll : List Node → List Char
  | [] => []
  | n :: ns => write n ++ writeAll ns

end

def isText : Node → Bool
  | .text _ => true
  | _ => false

mutual

/-- whether a tree can be written so that it is read back -/
def Sound : Node → Prop
  | .element name attributes children => IsName name ∧ IsTail attributes ∧ SoundAll children
  | .text raw => raw ≠ [] ∧ '<' ∉ raw
  | .verbatim s => ']' ∉ s
  | .fault => False

/-- two texts side by side would be read as one -/
def SoundAll : List Node → Prop
  | [] => True
  | n :: ns => Sound n ∧ (isText n = true → ∀ m ∈ ns.head?, isText m = false) ∧ SoundAll ns

end

/-! ### tokens -/

mutual

def nodeTokens : Node → List Token
  | .element name attributes children =>
    .opening name attributes :: (contentTokens children ++ [.closing name])
  | .text raw => [.text raw]
  | .verbatim s => [.verbatim s]
  | .fault => [.fault]

def contentTokens : List Node → List Token
  | [] => []
  | n :: ns => nodeTokens n ++ contentTokens ns

end

theorem head?_write {n : Node} (hn : Sound n) (htext : isText n = false) :
    (write n).head? = some '<' := by
  cases n with
  | text raw => cases htext
  | fault => exact hn.elim
  | _ => rfl

/-- what stands behind a text is markup, or nothing -/
theorem head?_writeAll {ns : List Node} (hns : SoundAll ns)
    (htext : ∀ m ∈ ns.head?, isText m = false) {s : List Char} (hs : ∀ c ∈ s.head?, c = '<') :
    ∀ c ∈ (writeAll ns ++ s).head?, c = '<' := by
  cases ns with
  | nil => exact hs
  | cons m ns =>
    have hhead := head?_write hns.1 (htext m rfl)
    intro c hc
    rw [writeAll, List.append_assoc, List.head?_append, hhead] at hc
    exact (Option.some.inj hc).symm

mutual

theorem written_write (n : Node) (hn : Sound n) {ts : List Token} {s : List Char}
    (hs : isText n = true → ∀ c ∈ s.head?, c = '<') (h : Written ts s) :
    Written (nodeTokens n ++ ts) (write n ++ s) := by
  cases n with
  | element name attributes children =>
    obtain ⟨hname, htail, hchildren⟩ := hn
    have hcontent := written_writeAll children hchildren (by simp) (Written.closing hname h)
    have helement := Written.opening hname htail hcontent
    simpa only [nodeTokens, write, List.cons_append, List.append_assoc, List.nil_append]
      using helement
  | text raw => exact .text hn.1 hn.2 (hs rfl) h
  | verbatim content =>
    have hverbatim := Written.verbatim hn h
    simpa only [nodeTokens, write, List.cons_append, List.append_assoc, List.nil_append]
      using hverbatim
  | fault => exact hn.elim
termination_by structural n

theorem written_writeAll (ns : List Node) (hns : SoundAll ns) {ts : List Token} {s : List Char}
    (hs : ∀ c ∈ s.head?, c = '<') (h : Written ts s) :
    Written (contentTokens ns ++ ts) (writeAll ns ++ s) := by
  cases ns with
  | nil => exact h
  | cons n ns =>
    obtain ⟨hn, hapart, hns⟩ := hns
    have hrest := written_writeAll ns hns hs h
    have hfirst := written_write n hn (fun htext => head?_writeAll hns (hapart htext) hs) hrest
    simpa only [contentTokens, writeAll, List.append_assoc] using hfirst
termination_by structural ns

end

/-! ### trees -/

mutual

/-- the tokens of a node add the node to the innermost open element -/
theorem build_nodeTokens (n : Node) (hn : Sound n) (f : Frame) (fs : List Frame)
    (ts : List Token) : build (f :: fs) (nodeTokens n ++ ts) = build (f.add n :: fs) ts := by
  cases n with
  | element name attributes children =>
    -- the content fills a frame of its own, which the closing tag adds to the one around it
    have hcontent := build_contentTokens children hn.2.2 ⟨name, attributes, []⟩ (f :: fs)
      (.closing name :: ts)
    rw [nodeTokens, List.cons_append, List.append_assoc, build, List.singleton_append, hcontent,
      build, if_pos rfl, List.append_nil]
    dsimp only
    rw [Frame.close, List.reverse_reverse]
  | text raw => rfl
  | verbatim s => rfl
  | fault => exact hn.elim
termination_by structural n

theorem build_contentTokens (ns : List Node) (hns : SoundAll ns) (f : Frame) (fs : List Frame)
    (ts : List Token) :
    build (f :: fs) (contentTokens ns ++ ts) =
      build ({ f with children := ns.reverse ++ f.children } :: fs) ts := by
  cases ns with
  | nil => rfl
  | cons n ns =>
    rw [contentTokens, List.append_assoc, build_nodeTokens n hns.1,
      build_contentTokens ns hns.2.2, List.reverse_cons, List.append_assoc]
    rfl
termination_by structural ns

end

theorem build_root {name attributes : List Char} {children : List Node}
    (hchildren : SoundAll children) (ts : List Token) :
    build [] (nodeTokens (.element name attributes children) ++ ts) =
      .element name attributes children := by
  rw [nodeTokens, List.cons_append, List.append_assoc, build, List.singleton_append,
    build_contentTokens children hchildren, build, if_pos rfl, List.append_nil]
  dsimp only
  rw [Frame.close, List.reverse_reverse]

/-! ### texts and blanks -/

/-- there is no text where there are no characters -/
def textNodes (raw : List Char) : List Node := if raw = [] then [] else [.text raw]

/-- nodes one after the other, each of them behind the same blanks -/
def behind (blanks : List Char) (ns : List Node) : List Node :=
  ns.flatMap fun n => textNodes blanks ++ [n]

theorem behind_append (blanks : List Char) (ns ms : List Node) :
    behind blanks (ns ++ ms) = behind blanks ns ++ behind blanks ms :=
  List.flatMap_append

theorem not_mem_of_blank {blanks : List Char} (hblanks : ∀ c ∈ blanks, isSpace c = true) {d : Char}
    (hd : isSpace d = false) : d ∉ blanks := by
  intro hmem
  rw [hblanks d hmem] at hd
  cases hd

theorem soundAll_textNodes {raw : List Char} (hraw : '<' ∉ raw) : SoundAll (textNodes raw) := by
  unfold textNodes
  split
  · trivial
  · rename_i hne
    exact ⟨⟨hne, hraw⟩, fun _ m hm => (by cases hm), trivial⟩

theorem soundAll_textNodes_cons {raw : List Char} (hraw : '<' ∉ raw) {n : Node}
    (htext : isText n = false) {ns : List Node} (h : SoundAll (n :: ns)) :
    SoundAll (textNodes raw ++ n :: ns) := by
  unfold textNodes
  split
  · exact h
  · rename_i hne
    refine ⟨⟨hne, hraw⟩, ?_, h⟩
    rintro _ _ ⟨⟩
    exact htext

/-- elements behind blanks, and blanks behind the last one -/
theorem soundAll_behind {blanks after : List Char} (hblanks : '<' ∉ blanks) (hafter : '<' ∉ after)
    {ns : List Node} (hns : ∀ n ∈ ns, Sound n ∧ isText n = false) :
    SoundAll (behind blanks ns ++ textNodes after) := by
  induction ns with
  | nil => exact soundAll_textNodes hafter
  | cons n ns ih =>
    obtain ⟨hn, htext⟩ := hns n List.mem_cons_self
    have hrest := ih fun m hm => hns m (List.mem_cons_of_mem _ hm)
    have hsplit : behind blanks (n :: ns) ++ textNodes after =
        textNodes blanks ++ n :: (behind blanks ns ++ textNodes after) := by
      simp [behind]
    rw [hsplit]
    refine soundAll_textNodes_cons hblanks htext ⟨hn, ?_, hrest⟩
    rw [htext]
    exact fun h => (by cases h)

/-! ### documents -/

def IsDeclaration (content : List Char) : Prop := '?' ∉ content ∧ content.head? ≠ some '>'

def declare : Option (List Char) → List Char
  | none => []
  | some content => '<' :: '?' :: (content ++ ['?', '>'])

theorem written_textNodes {raw : List Char} (hraw : '<' ∉ raw) {ts : List Token} {s : List Char}
    (hs : ∀ c ∈ s.head?, c = '<') (h : Written ts s) :
    Written (contentTokens (textNodes raw) ++ ts) (raw ++ s) := by
  unfold textNodes
  split
  · rename_i hnil
    rw [hnil]
    exact h
  · rename_i hne
    exact .text hne hraw hs h

theorem written_declare {declaration : Option (List Char)}
    (hdeclaration : ∀ content ∈ declaration, IsDeclaration content) {ts : List Token}
    {s : List Char} (h : Written ts s) : Written ts (declare declaration ++ s) := by
  cases declaration with
  | none => exact h
  | some content =>
    obtain ⟨hmark, hhead⟩ := hdeclaration content rfl
    simpa [declare] using Written.declaration hmark hhead h

theorem build_blanks {blanks : List Char} (hblanks : ∀ c ∈ blanks, isSpace c = true)
    (ts : List Token) : build [] (contentTokens (textNodes blanks) ++ ts) = build [] ts := by
  unfold textNodes
  split
  · rfl
  · show (if blanks.all isSpace then build [] ts else .fault) = _
    rw [if_pos (List.all_eq_true.mpr hblanks)]

/-- **A sound tree is read back**, with a declaration in front of it or without and with blanks
around it. -/
theorem root_document {declaration : Option (List Char)}
    (hdeclaration : ∀ content ∈ declaration, IsDeclaration content) {blanks : List Char}
    (hblanks : ∀ c ∈ blanks, isSpace c = true) {name attributes : List Char}
    {children : List Node} (h : Sound (.element name attributes children)) :
    root (String.ofList (declare declaration ++
      (blanks ++ (write (.element name attributes children) ++ blanks)))) =
        .element name attributes children := by
  have hopen : '<' ∉ blanks := not_mem_of_blank hblanks (by decide)
  have hafter := written_textNodes hopen (s := []) (by simp) .done
  rw [List.append_nil, List.append_nil] at hafter
  have htree := written_write _ h (by simp [isText]) hafter
  have hhead : ∀ c ∈ (write (.element name attributes children) ++ blanks).head?, c = '<' :=
    fun c hc => (Option.some.inj hc).symm
  have hbefore := written_textNodes hopen hhead htree
  -- what comes first is a bracket or a blank, so that no mark is taken off
  have hmark : (declare declaration ++
      (blanks ++ (write (.element name attributes children) ++ blanks))).head? ≠
        some '\uFEFF' := by
    cases declaration with
    | some content => exact fun hc => absurd (Option.some.inj hc) (by decide)
    | none =>
      cases blanks with
      | nil => exact fun hc => absurd (Option.some.inj hc) (by decide)
      | cons c blanks =>
        intro hc
        obtain rfl := Option.some.inj hc
        exact absurd (hblanks _ List.mem_cons_self) (by decide)
  rw [root, String.toList_ofList, tokens_of_written (written_declare hdeclaration hbefore) hmark,
    build_blanks hblanks, build_root h.2.2]

end VersionFloor.Data.Xml
