import VersionFloor.Data.Xml.Token
import VersionFloor.Proofs.Text.Split

/-!
# XML: the tokens that a text is made of

`Written ts s` says without the reader that `s` writes the tokens `ts` one after the other; these
are the tokens that are read (`tokens_of_written`).
-/

namespace VersionFloor.Data.Xml

open Text

/-! ### tags -/

/-- a character that neither ends a name nor gives a tag another meaning -/
def isNameChar (c : Char) : Bool :=
  !isSpace c && !"<>/!?'\"".toList.contains c

def IsName (name : List Char) : Prop := name ≠ [] ∧ name.all isNameChar = true

instance (name : List Char) : Decidable (IsName name) := inferInstanceAs (Decidable (_ ∧ _))

/-- what may stand between the name and the end of a tag that does not close itself -/
structure IsTail (tail : List Char) : Prop where
  apart : ∀ c ∈ tail.head?, isSpace c = true
  bracket : '>' ∉ tail
  quotes : tail.foldl quoteAfter none = none
  slash : tail.getLast? ≠ some '/'

theorem isTail_nil : IsTail [] where
  apart _ hc := by cases hc
  bracket := List.not_mem_nil
  quotes := rfl
  slash h := by cases h

theorem not_isSpace_of_isNameChar {c : Char} (hc : isNameChar c = true) : isSpace c = false := by
  rw [isNameChar, Bool.and_eq_true, Bool.not_eq_true'] at hc
  exact hc.1

theorem ne_of_isNameChar {c d : Char} (hc : isNameChar c = true) (hd : isNameChar d = false) :
    c ≠ d := by
  rintro rfl
  rw [hc] at hd
  cases hd

namespace IsName

variable {name : List Char} (hname : IsName name)

include hname

theorem isNameChar_of_mem {c : Char} (hc : c ∈ name) : isNameChar c = true :=
  List.all_eq_true.mp hname.2 c hc

theorem not_mem {d : Char} (hd : isNameChar d = false) : d ∉ name :=
  fun hmem => ne_of_isNameChar (hname.isNameChar_of_mem hmem) hd rfl

theorem foldl_quoteAfter : name.foldl quoteAfter none = none := by
  have hplain := fun c => hname.isNameChar_of_mem (c := c)
  clear hname
  induction name with
  | nil => rfl
  | cons c name ih =>
    have hc := hplain c List.mem_cons_self
    have hquote : ¬(c = '\'' ∨ c = '"') := by
      rintro (rfl | rfl) <;> cases hc
    rw [List.foldl_cons, quoteAfter, if_neg hquote]
    exact ih fun d hd => hplain d (List.mem_cons_of_mem _ hd)

theorem getLast?_ne : name.getLast? ≠ some '/' :=
  fun hlast => hname.not_mem (by decide) (List.mem_of_getLast? hlast)

theorem all_isSpace : name.all isSpace = false := by
  obtain ⟨c, rest, rfl⟩ := List.exists_cons_of_ne_nil hname.1
  have hc := not_isSpace_of_isNameChar (hname.isNameChar_of_mem List.mem_cons_self)
  rw [List.all_cons, hc, Bool.false_and]

end IsName

/-- a tag goes up to the first bracket that is not between quotes -/
theorem takeTag_append {tag : List Char} (hbracket : '>' ∉ tag) {quote : Option Char}
    (hquotes : tag.foldl quoteAfter quote = none) (rest : List Char) :
    takeTag quote (tag ++ '>' :: rest) = some (tag, rest) := by
  induction tag generalizing quote with
  | nil =>
    replace hquotes : quote = none := hquotes
    rw [List.nil_append, takeTag, if_pos ⟨rfl, hquotes⟩]
  | cons c tag ih =>
    have hc : ¬(c = '>' ∧ quote = none) := fun h => hbracket (h.1 ▸ List.mem_cons_self)
    rw [List.cons_append, takeTag, if_neg hc,
      ih (fun hmem => hbracket (List.mem_cons_of_mem _ hmem)) hquotes]
    rfl

section

variable {name tail : List Char} (hname : IsName name) (htail : IsTail tail)

include hname htail

theorem tagTokens_append : tagTokens (name ++ tail) = [.opening name tail] := by
  have hslash : (name ++ tail).getLast? ≠ some '/' := by
    rw [List.getLast?_append]
    cases hlast : tail.getLast? with
    | none => exact hname.getLast?_ne
    | some c => exact fun h => htail.slash (hlast.trans h)
  have hword : ∀ c ∈ name, (!isSpace c) = true := fun c hc => by
    rw [not_isSpace_of_isNameChar (hname.isNameChar_of_mem hc)]
    rfl
  have hstop : ∀ c ∈ tail.head?, (!isSpace c) = false := fun c hc => by
    rw [htail.apart c hc]
    rfl
  simp only [tagTokens, if_neg hslash, takeWhile_run hword hstop, dropWhile_run hword hstop]

theorem takeMarkup_opening (rest : List Char) :
    takeMarkup (name ++ (tail ++ '>' :: rest)) = some ([.opening name tail], rest) := by
  have hbracket : '>' ∉ name ++ tail := by
    rw [List.mem_append]
    rintro (h | h)
    · exact hname.not_mem (by decide) h
    · exact htail.bracket h
  have hquotes : (name ++ tail).foldl quoteAfter none = none := by
    rw [List.foldl_append, hname.foldl_quoteAfter, htail.quotes]
  have htag := takeTag_append hbracket hquotes rest
  rw [List.append_assoc] at htag
  -- no name starts like one of the other kinds of markup
  have hfirst {c : Char} (hc : isNameChar c = false) (t : List Char) :
      name ++ (tail ++ '>' :: rest) ≠ c :: t := by
    obtain ⟨d, ds, rfl⟩ := List.exists_cons_of_ne_nil hname.1
    intro h
    exact ne_of_isNameChar (hname.isNameChar_of_mem List.mem_cons_self) hc (List.cons.inj h).1
  rw [takeMarkup, htag]
  · show some (tagTokens (name ++ tail), rest) = _
    rw [tagTokens_append hname htail]
  · exact hfirst (by decide)
  · exact hfirst (by decide)
  · exact fun t => hfirst (by decide) _
  · exact hfirst (by decide)

end

theorem takeMarkup_closing {name : List Char} (hname : IsName name) (rest : List Char) :
    takeMarkup ('/' :: (name ++ '>' :: rest)) = some ([.closing name], rest) := by
  have hspace : ∀ c ∈ name.reverse, isSpace c = false := fun c hc =>
    not_isSpace_of_isNameChar (hname.isNameChar_of_mem (List.mem_reverse.mp hc))
  have hclosing : closingName name = name := by
    rw [closingName, hname.all_isSpace, if_neg (by decide), dropWhile_of_none hspace,
      List.reverse_reverse]
  have hsplit := splitFirst_append [] (hname.not_mem (d := '>') (by decide)) rest
  show (splitFirst ['>'] (name ++ (['>'] ++ rest))).map _ = _
  rw [hsplit]
  show some ([Token.closing (closingName name)], rest) = _
  rw [hclosing]

/-- a declaration is passed over -/
theorem takeMarkup_declaration {content : List Char} (hmark : '?' ∉ content)
    (hhead : content.head? ≠ some '>') (rest : List Char) :
    takeMarkup ('?' :: (content ++ '?' :: '>' :: rest)) = some ([], rest) := by
  have hsplit := splitFirst_append ['>'] hmark rest
  rw [takeMarkup]
  · show (splitFirst ['?', '>'] (content ++ (['?', '>'] ++ rest))).map _ = _
    rw [hsplit]
    rfl
  · intro t h
    cases content with
    | nil => cases h
    | cons c content => exact hhead (congrArg some (List.cons.inj h).1)

theorem startsSame_append (mark s : List Char) : startsSame mark (mark ++ s) = true := by
  rw [startsSame, List.take_left, beq_self_eq_true]

theorem takeMarkup_verbatim {content : List Char} (hmark : ']' ∉ content) (rest : List Char) :
    takeMarkup ('!' :: ("[CDATA[".toList ++ (content ++ ']' :: ']' :: '>' :: rest))) =
      some ([.verbatim content], rest) := by
  have hinner : ']' ∉ "[CDATA[".toList ++ content := by
    rw [List.mem_append]
    rintro (h | h)
    · exact absurd h (by decide)
    · exact hmark h
  have hsplit : splitFirst "]]>".toList
      ('[' :: ("CDATA[".toList ++ (content ++ ']' :: ']' :: '>' :: rest))) =
        some ("[CDATA[".toList ++ content, rest) := by
    have happend := splitFirst_append [']', '>'] hinner rest
    rw [List.append_assoc] at happend
    exact happend
  show takeBang ('[' :: ("CDATA[".toList ++ (content ++ ']' :: ']' :: '>' :: rest))) = _
  rw [takeBang, hsplit]
  dsimp only
  rw [if_pos (startsSame_append _ _)]
  rfl

/-! ### all tokens -/

inductive Written : List Token → List Char → Prop
  | done : Written [] []
  | text {raw s : List Char} {ts : List Token} (hne : raw ≠ []) (hraw : '<' ∉ raw)
      (hs : ∀ c ∈ s.head?, c = '<') : Written ts s → Written (.text raw :: ts) (raw ++ s)
  | declaration {content s : List Char} {ts : List Token} (hmark : '?' ∉ content)
      (hhead : content.head? ≠ some '>') :
      Written ts s → Written ts ('<' :: '?' :: (content ++ '?' :: '>' :: s))
  | opening {name tail s : List Char} {ts : List Token} (hname : IsName name)
      (htail : IsTail tail) :
      Written ts s → Written (.opening name tail :: ts) ('<' :: (name ++ (tail ++ '>' :: s)))
  | closing {name s : List Char} {ts : List Token} (hname : IsName name) :
      Written ts s → Written (.closing name :: ts) ('<' :: '/' :: (name ++ '>' :: s))
  | verbatim {content s : List Char} {ts : List Token} (hmark : ']' ∉ content) :
      Written ts s → Written (.verbatim content :: ts)
        ('<' :: '!' :: ("[CDATA[".toList ++ (content ++ ']' :: ']' :: '>' :: s)))

theorem tokensFrom_text {raw s : List Char} {ts : List Token} (hne : raw ≠ [])
    (hraw : '<' ∉ raw) (hs : ∀ c ∈ s.head?, c = '<')
    (hrest : ∀ fuel, s.length < fuel → tokensFrom fuel s = ts) {fuel : Nat}
    (hfuel : (raw ++ s).length < fuel) : tokensFrom fuel (raw ++ s) = .text raw :: ts := by
  obtain ⟨c, raw, rfl⟩ := List.exists_cons_of_ne_nil hne
  obtain ⟨fuel, rfl⟩ := Nat.exists_eq_add_one_of_ne_zero (Nat.ne_zero_of_lt hfuel)
  have hall : ∀ d ∈ c :: raw, decide (d ≠ '<') = true := fun d hd =>
    decide_eq_true fun he => hraw (he ▸ hd)
  have hc : c ≠ '<' := fun he => hraw (he ▸ List.mem_cons_self)
  have hstop : ∀ d ∈ s.head?, decide (d ≠ '<') = false := fun d hd =>
    decide_eq_false (not_not_intro (hs d hd))
  have htake := takeWhile_run hall hstop
  have hdrop := dropWhile_run hall hstop
  have hlen : s.length < fuel := by
    rw [List.cons_append, List.length_cons, List.length_append] at hfuel
    omega
  rw [List.cons_append] at htake hdrop ⊢
  rw [tokensFrom, htake, hdrop, hrest fuel hlen]
  · exact List.cons_ne_nil _ _
  · exact fun t h => hc (List.cons.inj h).1

theorem tokensFrom_markup {m s : List Char} {marks ts : List Token}
    (hmarkup : takeMarkup m = some (marks, s)) (hlen : s.length ≤ m.length)
    (hrest : ∀ fuel, s.length < fuel → tokensFrom fuel s = ts) {fuel : Nat}
    (hfuel : ('<' :: m).length < fuel) : tokensFrom fuel ('<' :: m) = marks ++ ts := by
  obtain ⟨fuel, rfl⟩ := Nat.exists_eq_add_one_of_ne_zero (Nat.ne_zero_of_lt hfuel)
  rw [List.length_cons] at hfuel
  rw [tokensFrom, hmarkup]
  show marks ++ tokensFrom fuel s = marks ++ ts
  rw [hrest fuel (by omega)]

theorem tokensFrom_of_written {ts : List Token} {s : List Char} (h : Written ts s) (fuel : Nat)
    (hfuel : s.length < fuel) : tokensFrom fuel s = ts := by
  induction h generalizing fuel with
  | done =>
    obtain ⟨fuel, rfl⟩ := Nat.exists_eq_add_one_of_ne_zero (Nat.ne_of_gt hfuel)
    rfl
  | text hne hraw hs _ ih => exact tokensFrom_text hne hraw hs ih hfuel
  | declaration hmark hhead _ ih =>
    exact tokensFrom_markup (takeMarkup_declaration hmark hhead _) (by simp; omega) ih hfuel
  | opening hname htail _ ih =>
    exact tokensFrom_markup (takeMarkup_opening hname htail _) (by simp; omega) ih hfuel
  | closing hname _ ih =>
    exact tokensFrom_markup (takeMarkup_closing hname _) (by simp; omega) ih hfuel
  | verbatim hmark _ ih =>
    exact tokensFrom_markup (takeMarkup_verbatim hmark _) (by simp; omega) ih hfuel

/-- **The tokens of a text are those that it writes**, when no byte order mark stands in front. -/
theorem tokens_of_written {ts : List Token} {s : List Char} (h : Written ts s)
    (hmark : s.head? ≠ some '\uFEFF') : tokens s = ts := by
  have hs : withoutMark s = s := by
    rw [withoutMark]
    rintro t rfl
    exact hmark rfl
  rw [tokens, hs]
  exact tokensFrom_of_written h _ (Nat.lt_succ_self _)

end VersionFloor.Data.Xml
