import Mathlib.Data.List.TakeWhile
import VersionFloor.Text.Blank
import VersionFloor.Text.Split

/-!
# Text: what cutting gives

The place of the mark is known, and so are the pieces in front of it and behind it.
-/

namespace VersionFloor.Text

/-! ### behind the last separator -/

theorem afterLast_of_not_mem {sep : Char} {s : List Char} (h : sep ∉ s) : afterLast sep s = s := by
  have hall : ∀ c ∈ s.reverse, decide (c ≠ sep) = true := fun c hc =>
    decide_eq_true fun he => h (he ▸ List.mem_reverse.mp hc)
  rw [afterLast, List.takeWhile_eq_self_iff.mpr hall, List.reverse_reverse]

theorem afterLast_append {sep : Char} {s : List Char} (h : sep ∉ s) (t : List Char) :
    afterLast sep (t ++ sep :: s) = s := by
  have hall : ∀ c ∈ s.reverse, decide (c ≠ sep) = true := fun c hc =>
    decide_eq_true fun he => h (he ▸ List.mem_reverse.mp hc)
  have hrev : (t ++ sep :: s).reverse = s.reverse ++ sep :: t.reverse := by
    rw [List.reverse_append, List.reverse_cons, List.append_assoc, List.singleton_append]
  rw [afterLast, hrev, List.takeWhile_append_of_pos hall, List.takeWhile_cons_of_neg (by simp),
    List.append_nil, List.reverse_reverse]

/-- the separator stands in front of what follows its last place -/
theorem exists_eq_append_afterLast {sep : Char} {s : List Char} (h : sep ∈ s) :
    ∃ t, s = t ++ sep :: afterLast sep s ∧ sep ∉ afterLast sep s := by
  obtain ⟨u, v, huv, hu⟩ := List.eq_append_cons_of_mem (List.mem_reverse.mpr h)
  have hs : s = v.reverse ++ sep :: u.reverse := by
    rw [← List.reverse_reverse s, huv, List.reverse_append, List.reverse_cons, List.append_assoc,
      List.singleton_append]
  have hmem : sep ∉ u.reverse := fun hm => hu (List.mem_reverse.mp hm)
  have hlast : afterLast sep s = u.reverse := by rw [hs, afterLast_append hmem]
  exact ⟨v.reverse, hlast ▸ hs, hlast ▸ hmem⟩

theorem mem_afterLast {sep : Char} {s : List Char} {c : Char} (h : c ∈ afterLast sep s) :
    c ∈ s ∧ c ≠ sep := by
  have hrun : c ∈ s.reverse.takeWhile (· ≠ sep) := List.mem_reverse.mp h
  refine ⟨List.mem_reverse.mp ((List.takeWhile_sublist _).subset hrun), ?_⟩
  simpa using List.mem_takeWhile_imp hrun

/-! ### the first place of a mark -/

theorem isPrefixOf_of_ne {m c : Char} (h : m ≠ c) (ms s : List Char) :
    (m :: ms).isPrefixOf (c :: s) = false := by
  rw [List.isPrefixOf, beq_false_of_ne h, Bool.false_and]

theorem splitFirst_of_not_mem {m : Char} (ms : List Char) {s : List Char} (h : m ∉ s) :
    splitFirst (m :: ms) s = none := by
  induction s with
  | nil => rfl
  | cons c s ih =>
    have hc : m ≠ c := fun he => h (he ▸ List.mem_cons_self)
    rw [splitFirst, if_neg (by rw [isPrefixOf_of_ne hc]; decide),
      ih fun hm => h (List.mem_cons_of_mem _ hm)]
    rfl

theorem splitFirst_append {m : Char} (ms : List Char) {s : List Char} (h : m ∉ s)
    (t : List Char) : splitFirst (m :: ms) (s ++ (m :: ms ++ t)) = some (s, t) := by
  induction s with
  | nil =>
    have hprefix : (m :: ms).isPrefixOf (m :: ms ++ t) = true :=
      List.isPrefixOf_iff_prefix.mpr (List.prefix_append _ _)
    rw [List.cons_append] at hprefix
    rw [List.nil_append, List.cons_append, splitFirst, if_pos hprefix, ← List.cons_append,
      List.drop_left]
  | cons c s ih =>
    have hc : m ≠ c := fun he => h (he ▸ List.mem_cons_self)
    rw [List.cons_append, splitFirst, if_neg (by rw [isPrefixOf_of_ne hc]; decide),
      ih fun hm => h (List.mem_cons_of_mem _ hm)]
    rfl

/-- the mark stands where a text is cut, and does not start before -/
theorem splitFirst_eq_some {mark s a b : List Char} (hmark : mark ≠ [])
    (h : splitFirst mark s = some (a, b)) :
    s = a ++ (mark ++ b) ∧ ¬ mark <:+: a ++ mark.dropLast := by
  induction s generalizing a with
  | nil =>
    rw [splitFirst, if_neg hmark] at h
    cases h
  | cons c s ih =>
    rw [splitFirst] at h
    split at h
    · rename_i hstart
      cases h
      have hs := List.prefix_iff_eq_append.mp (List.isPrefixOf_iff_prefix.mp hstart)
      refine ⟨hs.symm, fun hin => ?_⟩
      have hle := hin.length_le
      rw [List.nil_append, List.length_dropLast] at hle
      have hpos := List.length_pos_iff.mpr hmark
      omega
    · rename_i hstart
      obtain ⟨⟨a', b'⟩, hrest, he⟩ := Option.map_eq_some_iff.mp h
      cases he
      obtain ⟨hs, hnone⟩ := ih hrest
      refine ⟨congrArg (c :: ·) hs, fun hin => ?_⟩
      rcases List.infix_cons_iff.mp hin with hat | hin
      · have hlast : a' ++ mark.dropLast <+: s := by
          rw [hs]
          exact (List.prefix_append_right_inj a').mpr
            ((List.dropLast_prefix mark).trans (List.prefix_append _ _))
        exact hstart (List.isPrefixOf_iff_prefix.mpr
          (hat.trans ((List.prefix_cons_inj c).mpr hlast)))
      · exact hnone hin

/-- the two sides of a mark are parts of the text -/
theorem mem_of_splitFirst {mark s a b : List Char} (hmark : mark ≠ [])
    (h : splitFirst mark s = some (a, b)) : (∀ c ∈ a, c ∈ s) ∧ ∀ c ∈ b, c ∈ s := by
  obtain ⟨hs, -⟩ := splitFirst_eq_some hmark h
  rw [hs]
  exact ⟨fun c hc => List.mem_append_left _ hc,
    fun c hc => List.mem_append_right _ (List.mem_append_right _ hc)⟩

theorem not_infix_of_splitFirst {mark s : List Char} (h : splitFirst mark s = none) :
    ¬ mark <:+: s := by
  induction s with
  | nil =>
    intro hin
    rw [splitFirst, if_pos (List.infix_nil.mp hin)] at h
    cases h
  | cons c s ih =>
    rw [splitFirst] at h
    split at h
    · cases h
    · rename_i hstart
      intro hin
      rcases List.infix_cons_iff.mp hin with hat | hin
      · exact hstart (List.isPrefixOf_iff_prefix.mpr hat)
      · exact ih (Option.map_eq_none_iff.mp h) hin

/-! ### every place of a separator -/

theorem splitAll_of_not_mem {sep : Char} {s : List Char} (h : sep ∉ s) : splitAll sep s = [s] := by
  induction s with
  | nil => rfl
  | cons c s ih =>
    have hc : c ≠ sep := fun he => h (he ▸ List.mem_cons_self)
    rw [splitAll, if_neg hc, ih fun hm => h (List.mem_cons_of_mem _ hm)]

theorem splitAll_append {sep : Char} {s : List Char} (h : sep ∉ s) (t : List Char) :
    splitAll sep (s ++ sep :: t) = s :: splitAll sep t := by
  induction s with
  | nil => rw [List.nil_append, splitAll, if_pos rfl]
  | cons c s ih =>
    have hc : c ≠ sep := fun he => h (he ▸ List.mem_cons_self)
    rw [List.cons_append, splitAll, if_neg hc, ih fun hm => h (List.mem_cons_of_mem _ hm)]

/-- where two texts meet, the last piece of the one goes on with the first piece of the other -/
theorem splitAll_append_of_cons {sep : Char} (s : List Char) {t piece : List Char}
    {more : List (List Char)} (ht : splitAll sep t = piece :: more) :
    ∃ before last, splitAll sep s = before ++ [last] ∧
      splitAll sep (s ++ t) = before ++ (last ++ piece) :: more := by
  induction s with
  | nil => exact ⟨[], [], rfl, ht⟩
  | cons c s ih =>
    obtain ⟨before, last, hs, hst⟩ := ih
    rw [List.cons_append, splitAll, splitAll]
    by_cases hc : c = sep
    · rw [if_pos hc, if_pos hc, hs, hst]
      exact ⟨[] :: before, last, rfl, rfl⟩
    · rw [if_neg hc, if_neg hc, hs, hst]
      cases before with
      | nil => exact ⟨[], c :: last, rfl, rfl⟩
      | cons first before => exact ⟨(c :: first) :: before, last, rfl, rfl⟩

theorem splitAll_append_of_not_mem {sep : Char} {s : List Char} (h : sep ∉ s) {t piece : List Char}
    {more : List (List Char)} (ht : splitAll sep t = piece :: more) :
    splitAll sep (s ++ t) = (s ++ piece) :: more := by
  obtain ⟨before, last, hs, hst⟩ := splitAll_append_of_cons s ht
  rw [splitAll_of_not_mem h] at hs
  cases before with
  | nil =>
    obtain rfl : s = last := (List.cons.inj hs).1
    exact hst
  | cons first before => simp at hs

/-- the first piece starts like the text, if it starts with anything -/
theorem head?_of_splitAll {sep : Char} {s piece : List Char} {more : List (List Char)}
    (h : splitAll sep s = piece :: more) : ∀ c ∈ piece.head?, c ∈ s.head? := by
  cases s with
  | nil =>
    obtain rfl : [] = piece := (List.cons.inj h).1
    exact fun c hc => hc
  | cons d s =>
    rw [splitAll] at h
    split at h
    · obtain rfl : [] = piece := (List.cons.inj h).1
      exact fun c hc => (by cases hc)
    · split at h
      · obtain rfl : [d] = piece := (List.cons.inj h).1
        exact fun c hc => hc
      · rename_i first _ _
        obtain rfl : d :: first = piece := (List.cons.inj h).1
        exact fun c hc => hc

/-- cutting undoes joining -/
theorem splitAll_joinWith {sep : Char} {mark : String} (hmark : mark.toList = [sep])
    {pieces : List String} (hne : pieces ≠ []) (h : ∀ s ∈ pieces, sep ∉ s.toList) :
    splitAll sep (joinWith mark pieces).toList = pieces.map String.toList := by
  induction pieces with
  | nil => exact absurd rfl hne
  | cons s pieces ih =>
    have hs : sep ∉ s.toList := h s List.mem_cons_self
    cases pieces with
    | nil => exact splitAll_of_not_mem hs
    | cons s' pieces =>
      have hrest := ih (List.cons_ne_nil _ _) fun p hp => h p (List.mem_cons_of_mem _ hp)
      have htext : (joinWith mark (s :: s' :: pieces)).toList =
          s.toList ++ sep :: (joinWith mark (s' :: pieces)).toList := by
        rw [joinWith, String.toList_append, String.toList_append, hmark, List.append_assoc]
        · rfl
        · exact List.cons_ne_nil _ _
      rw [htext, splitAll_append hs, hrest]
      rfl

/-! ### runs -/

section

variable {p : Char → Bool} {s t : List Char} (hs : ∀ c ∈ s, p c = true)
  (ht : ∀ c ∈ t.head?, p c = false)

include hs ht

/-- a run ends where the first character stands that is not of its kind -/
theorem takeWhile_run : (s ++ t).takeWhile p = s := by
  rw [List.takeWhile_append_of_pos hs]
  cases t with
  | nil => exact List.append_nil s
  | cons c t =>
    have hc : ¬p c = true := by rw [ht c rfl]; decide
    rw [List.takeWhile_cons_of_neg hc, List.append_nil]

theorem dropWhile_run : (s ++ t).dropWhile p = t := by
  rw [List.dropWhile_append_of_pos hs]
  cases t with
  | nil => rfl
  | cons c t => exact List.dropWhile_cons_of_neg (by rw [ht c rfl]; decide)

end

/-- a run does not go on into characters that are not of its kind -/
theorem takeWhile_append_of_none {p : Char → Bool} (s : List Char) {t : List Char}
    (ht : ∀ c ∈ t, p c = false) : (s ++ t).takeWhile p = s.takeWhile p := by
  have hnone : t.takeWhile p = [] := by
    cases t with
    | nil => rfl
    | cons c t => exact List.takeWhile_cons_of_neg (by rw [ht c List.mem_cons_self]; decide)
  rw [List.takeWhile_append, hnone, List.append_nil]
  split
  · rename_i hall
    exact ((List.takeWhile_prefix p).eq_of_length hall).symm
  · rfl

/-! ### trimming -/

theorem dropWhile_of_none {p : Char → Bool} {s : List Char} (h : ∀ c ∈ s, p c = false) :
    s.dropWhile p = s := by
  cases s with
  | nil => rfl
  | cons c s =>
    exact List.dropWhile_cons_of_neg (by rw [h c List.mem_cons_self]; decide)

theorem trimBy_of_none {p : Char → Bool} {s : List Char} (h : ∀ c ∈ s, p c = false) :
    trimBy p s = s := by
  have hrev : ∀ c ∈ s.reverse, p c = false := fun c hc => h c (List.mem_reverse.mp hc)
  rw [trimBy, dropWhile_of_none h, dropWhile_of_none hrev, List.reverse_reverse]

section

variable (p : Char → Bool) (s : List Char)

/-- the trimmed text among what was dropped -/
theorem exists_trimBy : ∃ front back, s = front ++ (trimBy p s ++ back) ∧
    (∀ c ∈ front, p c = true) ∧ ∀ c ∈ back, p c = true := by
  refine ⟨s.takeWhile p, ((s.dropWhile p).reverse.takeWhile p).reverse, ?_, ?_, ?_⟩
  · rw [trimBy_split, List.takeWhile_append_dropWhile]
  · intro c hc
    exact List.mem_takeWhile_imp hc
  · intro c hc
    exact List.mem_takeWhile_imp (List.mem_reverse.mp hc)

theorem mem_of_mem_trimBy {c : Char} (h : c ∈ trimBy p s) : c ∈ s := by
  obtain ⟨front, back, hs, -, -⟩ := exists_trimBy p s
  rw [hs]
  exact List.mem_append_right _ (List.mem_append_left _ h)

theorem head?_trimBy : ∀ c ∈ (trimBy p s).head?, p c = false := by
  intro c hc
  have hidem : (trimBy p s).dropWhile p = trimBy p s := by
    apply dropWhile_left p _ ((s.dropWhile p).reverse.takeWhile p).reverse
    rw [trimBy_split, dropWhile_idem]
  have hnot := List.head?_dropWhile_not p (trimBy p s)
  rw [hidem, hc] at hnot
  simpa using hnot

theorem getLast?_trimBy : ∀ c ∈ (trimBy p s).getLast?, p c = false := by
  intro c hc
  rw [trimBy, List.getLast?_reverse] at hc
  have hnot := List.head?_dropWhile_not p (s.dropWhile p).reverse
  rw [hc] at hnot
  simpa using hnot

end

theorem trimBy_append {p : Char → Bool} {front word back : List Char}
    (hfront : ∀ c ∈ front, p c = true) (hword : ∀ c ∈ word, p c = false)
    (hback : ∀ c ∈ back, p c = true) : trimBy p (front ++ (word ++ back)) = word := by
  rw [trimBy, List.dropWhile_append_of_pos hfront]
  cases word with
  | nil =>
    rw [List.nil_append, List.dropWhile_eq_nil_iff.mpr hback]
    rfl
  | cons c word =>
    have hc : ¬ p c = true := by rw [hword c List.mem_cons_self]; decide
    have hrev : ∀ c ∈ back.reverse, p c = true := fun c hc => hback c (List.mem_reverse.mp hc)
    have hnone : ∀ d ∈ (c :: word).reverse, p d = false :=
      fun d hd => hword d (List.mem_reverse.mp hd)
    rw [List.cons_append, List.dropWhile_cons_of_neg hc, ← List.cons_append, List.reverse_append,
      List.dropWhile_append_of_pos hrev, dropWhile_of_none hnone, List.reverse_reverse]

/-- a text is trimmed when nothing of the kind stands at its ends -/
theorem trimBy_eq_self_iff {p : Char → Bool} {s : List Char} :
    trimBy p s = s ↔ (∀ c ∈ s.head?, p c = false) ∧ ∀ c ∈ s.getLast?, p c = false := by
  constructor
  · intro h
    have hhead := head?_trimBy p s
    have hlast := getLast?_trimBy p s
    rw [h] at hhead hlast
    exact ⟨hhead, hlast⟩
  · rintro ⟨hhead, hlast⟩
    have hfront : s.dropWhile p = s := dropWhile_run (s := []) (fun _ hc => by cases hc) hhead
    have hback : s.reverse.dropWhile p = s.reverse := by
      rw [← List.head?_reverse] at hlast
      exact dropWhile_run (s := []) (fun _ hc => by cases hc) hlast
    rw [trimBy, hfront, hback, List.reverse_reverse]

theorem trimBy_eq_nil_iff {p : Char → Bool} {s : List Char} :
    trimBy p s = [] ↔ ∀ c ∈ s, p c = true := by
  constructor
  · intro hnil
    obtain ⟨front, back, hs, hfront, hback⟩ := exists_trimBy p s
    rw [hnil, List.nil_append] at hs
    intro c hc
    rw [hs, List.mem_append] at hc
    exact hc.elim (hfront c) (hback c)
  · intro hall
    rw [trimBy, List.dropWhile_eq_nil_iff.mpr hall]
    rfl

/-- a text in which trimming takes nothing of the kind away is trimmed -/
theorem trimBy_eq_self_of_countP {p : Char → Bool} {s : List Char}
    (h : (trimBy p s).countP p = s.countP p) : trimBy p s = s := by
  obtain ⟨front, back, hs, hfront, hback⟩ := exists_trimBy p s
  have hcount := congrArg (List.countP p) hs
  rw [List.countP_append, List.countP_append, List.countP_eq_length.mpr hfront,
    List.countP_eq_length.mpr hback] at hcount
  have hfrontNil : front = [] := List.length_eq_zero_iff.mp (by omega)
  have hbackNil : back = [] := List.length_eq_zero_iff.mp (by omega)
  rw [hfrontNil, hbackNil, List.append_nil, List.nil_append] at hs
  exact hs.symm

end VersionFloor.Text
