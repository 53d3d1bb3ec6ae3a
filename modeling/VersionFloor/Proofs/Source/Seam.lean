import VersionFloor.Proofs.Source.Layout
import VersionFloor.Proofs.Source.PlainCall

/-!
# Source: text that ends with a whole statement

Complete text ends in a semicolon and leaves no parenthesis open.  No site that starts in it reaches
beyond it, so a scan finds what it finds in that text alone, and then what it finds in the rest
alone (`sites_append`); behind an opening tag the calls of both are those of the two texts together
(`calls_append`).
-/

namespace VersionFloor.Source

open Text

structure Complete (s : List Char) : Prop where
  ends : s.getLast? = some ';'
  /-- a parenthesis closes somewhere behind every one that opens -/
  closes : ∀ front back, s = front ++ '(' :: back → ')' ∈ back

/-- a parenthesis closes behind every one that opens, read character by character -/
def closesAll : List Char → Bool
  | [] => true
  | c :: s => (c != '(' || s.contains ')') && closesAll s

theorem closesAll_iff {s : List Char} :
    closesAll s = true ↔ ∀ front back, s = front ++ '(' :: back → ')' ∈ back := by
  induction s with
  | nil => simp [closesAll]
  | cons c s ih =>
    rw [closesAll, Bool.and_eq_true, ih]
    constructor
    · rintro ⟨hc, hs⟩ front back he
      cases front with
      | nil =>
        obtain ⟨rfl, rfl⟩ := List.cons.inj he
        simpa using hc
      | cons d front => exact hs front back (List.cons.inj he).2
    · intro h
      refine ⟨?_, fun front back he => h (c :: front) back (congrArg (c :: ·) he)⟩
      by_cases hc : c = '('
      · have hmem := h [] s (by rw [hc]; rfl)
        simp [hmem]
      · simp [hc]

instance (s : List Char) : Decidable (Complete s) :=
  decidable_of_iff (s.getLast? = some ';' ∧ closesAll s = true)
    ⟨fun h => ⟨h.1, closesAll_iff.mp h.2⟩, fun h => ⟨h.ends, closesAll_iff.mpr h.closes⟩⟩

namespace Complete

variable {s : List Char}

theorem suffix {r : List Char} (h : Complete s) (hs : r <:+ s) (hne : r ≠ []) : Complete r where
  ends := by
    obtain ⟨u, rfl⟩ := hs
    rw [← List.getLast?_append_of_ne_nil u hne]
    exact h.ends
  closes front back hr := by
    obtain ⟨u, rfl⟩ := hs
    exact h.closes (u ++ front) back (by rw [hr, List.append_assoc])

theorem semicolon_mem (h : Complete s) : ';' ∈ s := List.mem_of_getLast? h.ends

/-- a run of characters that are no semicolons ends within the text -/
theorem dropWhile_ne_nil (h : Complete s) {p : Char → Bool} (hp : p ';' = false) :
    s.dropWhile p ≠ [] := by
  intro hnil
  have hall := List.dropWhile_eq_nil_iff.mp hnil ';' h.semicolon_mem
  rw [hp] at hall
  cases hall

theorem dropWhile (h : Complete s) {p : Char → Bool} (hp : p ';' = false) :
    Complete (s.dropWhile p) :=
  h.suffix (List.dropWhile_suffix p) (h.dropWhile_ne_nil hp)

/-- what follows any other character is complete too -/
theorem tail {c : Char} (h : Complete (c :: s)) (hc : c ≠ ';') : Complete s := by
  refine h.suffix (List.suffix_cons c s) ?_
  rintro rfl
  exact hc (Option.some.inj h.ends)

theorem settled (h : Complete s) : Settled s where
  last := by
    rw [h.ends]
    rfl
  closed := by
    have hopen (t : List Char) (ht : ∀ front back, t = front ++ '(' :: back → ')' ∈ back) :
        leavesOpen t = false := by
      rw [leavesOpen]
      split
      · rename_i back hback
        have hmem : ')' ∈ back := by
          refine ht (t.takeWhile isBlank) back ?_
          rw [← hback, List.takeWhile_append_dropWhile]
        simpa using hmem
      · rfl
    have hcloses := h.closes
    clear h
    induction s with
    | nil => rfl
    | cons c s ih =>
      have hrest : ∀ front back, s = front ++ '(' :: back → ')' ∈ back :=
        fun front back he => hcloses (c :: front) back (by rw [he]; rfl)
      rw [opensCall, hopen s hrest, Bool.and_false, Bool.false_or]
      exact ih hrest

end Complete

/-! ### one place of the text -/

theorem behind?_append_of_ne_nil {c : Char} {s : List Char} (hne : s ≠ []) (t : List Char) :
    behind? c (s ++ t) = (behind? c s).map (· ++ t) := by
  cases s with
  | nil => exact absurd rfl hne
  | cons d s =>
    rw [List.cons_append, behind?, behind?]
    split
    · rfl
    · rfl

section

variable {s : List Char} (t : List Char)

theorem afterArguments?_complete (h : Complete s) :
    afterArguments? (s ++ t) = (afterArguments? s).map (· ++ t) := by
  have hblank : isBlank ';' = false := by decide
  have hname := h.dropWhile_ne_nil hblank
  rw [afterArguments?_eq, afterArguments?_eq, (takeWhile_append_of_dropWhile hname t).2,
    behind?_append_of_ne_nil hname]
  cases hs : behind? '(' (s.dropWhile isBlank) with
  | none => rfl
  | some r =>
    have hopen : Complete ('(' :: r) := behind?_eq_some hs ▸ h.dropWhile hblank
    have hclose : ')' ∈ r := hopen.closes [] r rfl
    obtain ⟨inside, behind, hr, hinside⟩ := List.eq_append_cons_of_mem hclose
    have hbehind : Complete behind := by
      have hsuffix : ')' :: behind <:+ '(' :: r := by
        rw [hr]
        exact (List.suffix_append inside _).trans (List.suffix_cons _ _)
      exact (hopen.suffix hsuffix (List.cons_ne_nil _ _)).tail (by decide)
    have hdrop (more : List Char) :
        ((inside ++ ')' :: more).dropWhile (· != ')')).drop 1 = more := by
      rw [List.dropWhile_append_of_pos fun c hc => bne_iff_ne.mpr fun he : c = ')' => hinside (he ▸ hc)]
      rfl
    have hgap := hbehind.dropWhile_ne_nil hblank
    show behind? ';' ((((r ++ t).dropWhile (· != ')')).drop 1).dropWhile isBlank) =
      (behind? ';' (((r.dropWhile (· != ')')).drop 1).dropWhile isBlank)).map (· ++ t)
    rw [hr, List.append_assoc, List.cons_append, hdrop, hdrop,
      (takeWhile_append_of_dropWhile hgap t).2, behind?_append_of_ne_nil hgap]

theorem takeNamed_complete (h : Complete s) (k : Option Keyword) :
    takeNamed k (s ++ t) = (takeNamed k s).map (extend t) := by
  have hname : isNameChar ';' = false := by decide
  obtain ⟨htake, hdrop⟩ := takeWhile_append_of_dropWhile (h.dropWhile_ne_nil hname) t
  rw [takeNamed, takeNamed, htake, hdrop, afterArguments?_complete t (h.dropWhile hname)]
  cases s.takeWhile isNameChar with
  | nil => rfl
  | cons c name =>
    simp only [Option.map_map]
    rfl

theorem takeAfter_complete (h : Complete s) (k : Keyword) :
    takeAfter k (s ++ t) = (takeAfter k s).map (extend t) := by
  have hne : s ≠ [] := List.ne_nil_of_mem h.semicolon_mem
  rw [takeAfter, takeAfter, h.settled.startsSame_append hne]
  split
  · rename_i hstart
    have hlt : k.text.length < s.length :=
      h.settled.length_lt (t := []) hne (by rw [List.append_nil]; exact hstart)
    rw [List.drop_append_of_le_length hlt.le]
    cases hgap : s.drop k.text.length with
    | nil => exact absurd (List.drop_eq_nil_iff.mp hgap) (Nat.not_le.mpr hlt)
    | cons b gap =>
      have hbehind : Complete (b :: gap) :=
        h.suffix (hgap ▸ List.drop_suffix _ s) (List.cons_ne_nil _ _)
      rw [List.cons_append]
      show (if isBlank b = true then _ else _) = Option.map _ (if isBlank b = true then _ else _)
      split
      · rename_i hb
        have hsemicolon : isBlank ';' = false := by decide
        have hcomplete : Complete gap := by
          refine hbehind.tail ?_
          rintro rfl
          rw [hsemicolon] at hb
          cases hb
        rw [(takeWhile_append_of_dropWhile (hcomplete.dropWhile_ne_nil hsemicolon) t).2,
          takeNamed_complete t (hcomplete.dropWhile hsemicolon)]
      · rfl
  · rfl

theorem takeSite_complete {c : Char} (h : Complete (c :: s)) (before : Option Char) :
    takeSite before c (s ++ t) = (takeSite before c s).map (extend t) := by
  have hnamed := takeNamed_complete t h none
  have hafter := takeAfter_complete t h
  rw [List.cons_append] at hnamed hafter
  rw [takeSite, takeSite, hnamed, Option.map_or]
  split
  · rw [hafter, hafter, Option.map_or]
  · rfl

/-! ### the whole text -/

/-- **A scan goes on behind complete text as at the start of a statement.** -/
theorem sites_append (h : Complete s) (before : Option Char) :
    sites before (s ++ t) = sites before s ++ sites (some ';') t := by
  -- what is left behind a place of complete text is complete, or nothing behind the last semicolon
  fun_induction sites before s with
  | case1 before => cases h.ends
  | case2 before c s site after htake ih =>
    have htext := takeSite_complete t h before
    rw [htake] at htext
    rw [List.cons_append, sites_of_some htext]
    cases after with
    | nil => rw [sites]; rfl
    | cons d after =>
      have hsuffix : d :: after <:+ c :: s :=
        (List.suffix_cons ';' _).trans (takeSite_suffix htake)
      exact congrArg (site :: ·) (ih (h.suffix hsuffix (List.cons_ne_nil _ _)))
  | case3 before c s htake ih =>
    have htext := takeSite_complete t h before
    rw [htake] at htext
    rw [List.cons_append, sites_of_none htext]
    cases s with
    | nil =>
      obtain rfl : c = ';' := Option.some.inj h.ends
      rw [sites]
      rfl
    | cons d s => exact ih (h.suffix (List.suffix_cons c _) (List.cons_ne_nil _ _))

end

/-! ### behind an opening tag -/

/-- a semicolon behind the opening tag is a statement of its own -/
theorem sites_openTag_semicolon (s : List Char) :
    sites none (openTag ++ ';' :: s) = sites (some ';') s := by
  have hname : (';' :: s).dropWhile isNameChar = ';' :: s :=
    List.dropWhile_cons_of_neg (by decide)
  have hnone : takeSite (some 'p') ';' s = none := by
    rw [takeSite, takeNamed_eq_none_of_head (by decide)]
    rfl
  have hsemicolon : isBlank ';' = false := by decide
  have harguments : afterArguments? (';' :: s) = none :=
    afterArguments?_of_head hsemicolon (by decide) ⟨[], by simp⟩ s
  rw [Script.sites_openTag hname harguments, sites_of_none hnone]

theorem callsAsWritten_openTag {s : List Char} (hs : Passes s) (t : List Char) :
    callsAsWritten (openTag ++ (s ++ t)) =
      (sites none (openTag ++ (s ++ (takeBody t).1))).filterMap Site.call? ++
        callsAsWritten (takeBody t).2 := by
  have htag : openTag.map asciiLower = openTag := by decide
  rw [callsAsWritten, regions_tag htag, hs t, List.flatMap_cons]
  rfl

/-- the calls of a complete text come first, and those of the rest follow -/
theorem callsAsWritten_append {a : List Char} (h : Complete a) (htag : ¬ closeTag <:+: a)
    (b : List Char) :
    callsAsWritten (openTag ++ ';' :: (a ++ b)) =
      callsAsWritten (openTag ++ ';' :: a) ++ callsAsWritten (openTag ++ ';' :: b) := by
  have hsemicolon : Passes [';'] := passes_of_not_mem (by decide)
  have ha : Passes a := by
    obtain ⟨front, rfl⟩ : ∃ front, a = front ++ [';'] :=
      ⟨a.dropLast, (List.dropLast_append_getLast? ';' h.ends).symm⟩
    exact passes_of_untagged (fun hin => htag (hin.trans (List.prefix_append _ _).isInfix))
      (by decide) (by decide)
  have hboth := callsAsWritten_openTag (hsemicolon.append ha) b
  have halone := callsAsWritten_openTag (hsemicolon.append ha) []
  have hrest := callsAsWritten_openTag hsemicolon b
  have hempty : callsAsWritten [] = [] := by rw [callsAsWritten, regions]; rfl
  have hnil : (sites none (openTag ++ ';' :: [])).filterMap Site.call? = [] := by
    rw [sites_openTag_semicolon, sites]
    rfl
  simp only [takeBody, List.append_nil, List.cons_append, List.nil_append] at hboth halone hrest
  rw [hboth, halone, hrest, hempty, List.append_nil, sites_openTag_semicolon,
    sites_openTag_semicolon, sites_openTag_semicolon, sites_append _ h, List.filterMap_append,
    List.append_assoc]

/-- **Complete text and what follows it do not touch each other's calls**, whatever follows. -/
theorem calls_append {a : List Char} (h : Complete a) (htag : ¬ closeTag <:+: a) (b : List Char)
    (call : Call) :
    call ∈ calls (openTag ++ ';' :: (a ++ b)) ↔
      call ∈ calls (openTag ++ ';' :: a) ∨ call ∈ calls (openTag ++ ';' :: b) := by
  rw [mem_calls, mem_calls, mem_calls, callsAsWritten_append h htag, List.mem_append]

/-- a loop header and a keyword in front, and regions that end and start behind -/
theorem calls_append_reopened :
    let a := "for ($i = f(1); $i < 2;) new\n;NEW A (3) ;".toList
    let b := "(4); g(); ?> h(); <?PHP new (5); i\\B::j();".toList
    Complete a ∧ ¬ closeTag <:+: a ∧
      (Call.method "B" "j" ∈ calls (openTag ++ ';' :: (a ++ b)) ↔
        Call.method "B" "j" ∈ calls (openTag ++ ';' :: a) ∨
          Call.method "B" "j" ∈ calls (openTag ++ ';' :: b)) := by
  intro a b
  have ha : Complete a := by decide +kernel
  have htag : ¬ closeTag <:+: a := by decide +kernel
  exact ⟨ha, htag, calls_append ha htag b _⟩

end VersionFloor.Source
