import VersionFloor.Proofs.Data.Json.Number
import VersionFloor.Proofs.Data.Json.Text
import VersionFloor.Proofs.Text.Classes

/-!
# JSON: tokens as they are written

`Written ts s` says that the text `s` writes the tokens `ts` out, with any blanks between them and
any spelling of the texts; the tokens of such a text are `ts` again (`tokens_of_written`).
-/

namespace VersionFloor.Data.Json

open Text

/-- the tokens that are always written in the same way -/
def Token.mark? : Token → Option (List Char)
  | .openList => some ['[']
  | .closeList => some [']']
  | .openRecord => some ['\x7b']
  | .closeRecord => some ['\x7d']
  | .comma => some [',']
  | .colon => some [':']
  | .null => some ['n', 'u', 'l', 'l']
  | .bool true => some ['t', 'r', 'u', 'e']
  | .bool false => some ['f', 'a', 'l', 's', 'e']
  | .number _ => none
  | .text _ => none

inductive Written : List Token → List Char → Prop
  | done : Written [] []
  | blank {c : Char} {ts : List Token} {s : List Char} (hc : isSpace c = true) :
      Written ts s → Written ts (c :: s)
  | mark {t : Token} {m : List Char} {ts : List Token} {s : List Char}
      (ht : t.mark? = some m) : Written ts s → Written (t :: ts) (m ++ s)
  | text {content raw : List Char} {ts : List Token} {s : List Char}
      (hraw : Spells content raw) :
      Written ts s → Written (.text content :: ts) ('"' :: (raw ++ '"' :: s))
  | number {n : Nat} {ts : List Token} {s : List Char} (hn : n ≤ largestWord)
      (hs : ¬ GoesOn s) :
      Written ts s → Written (.number (.natural n) :: ts) (Nat.toDigits 10 n ++ s)

theorem Written.blanks {ts : List Token} {s : List Char} (h : Written ts s) {blanks : List Char}
    (hblanks : ∀ c ∈ blanks, isSpace c = true) : Written ts (blanks ++ s) := by
  induction blanks with
  | nil => exact h
  | cons c blanks ih =>
    exact .blank (hblanks c List.mem_cons_self)
      (ih fun d hd => hblanks d (List.mem_cons_of_mem _ hd))

/-! ### one token -/

theorem takeToken_mark {t : Token} {cs : List Char} (ht : t.mark? = some cs) (s : List Char) :
    takeToken (cs ++ s) = some (t, s) ∧ cs.head?.any (!isSpace ·) = true := by
  cases t with
  | number n => cases ht
  | text content => cases ht
  | bool b => cases b <;> cases ht <;> exact ⟨rfl, rfl⟩
  | openList => cases ht; exact ⟨rfl, rfl⟩
  | closeList => cases ht; exact ⟨rfl, rfl⟩
  | openRecord => cases ht; exact ⟨rfl, rfl⟩
  | closeRecord => cases ht; exact ⟨rfl, rfl⟩
  | comma => cases ht; exact ⟨rfl, rfl⟩
  | colon => cases ht; exact ⟨rfl, rfl⟩
  | null => cases ht; exact ⟨rfl, rfl⟩

theorem takeToken_text {content raw : List Char} (h : Spells content raw) (s : List Char) :
    takeToken ('"' :: (raw ++ '"' :: s)) = some (.text content, s) := by
  rw [takeToken, takeText_of_spells h]
  rfl

theorem beq_of_isAsciiDigit {c d : Char} (hc : isAsciiDigit c = true)
    (hd : isAsciiDigit d = false) : (c == d) = false :=
  beq_false_of_ne (ne_of_isAsciiDigit hc hd)

/-- no token but a number starts with a digit -/
theorem takeToken_digit {c : Char} (hc : isAsciiDigit c = true) (s : List Char) :
    takeToken (c :: s) = (takeMagnitude false (c :: s)).map fun (n, r) => (.number n, r) := by
  have hne {d : Char} (hd : isAsciiDigit d = false) {r : List Char} : c :: s ≠ d :: r := by
    intro h
    exact ne_of_isAsciiDigit hc hd (List.cons.inj h).1
  rw [takeToken]
  · exact List.cons_ne_nil c s
  all_goals
    intro r
    exact hne (by decide)

theorem takeToken_number {n : Nat} (hn : n ≤ largestWord) {s : List Char} (hs : ¬ GoesOn s) :
    takeToken (Nat.toDigits 10 n ++ s) = some (.number (.natural n), s) := by
  have hmagnitude := takeMagnitude_digits hn hs
  cases hd : Nat.toDigits 10 n with
  | nil => exact absurd hd Nat.toDigits_ne_nil
  | cons c ds =>
    have hc : isAsciiDigit c = true :=
      isAsciiDigit_of_mem_toDigits (n := n) (by rw [hd]; exact List.mem_cons_self)
    rw [hd] at hmagnitude
    rw [List.cons_append, takeToken_digit hc, ← List.cons_append, hmagnitude]
    rfl

/-! ### all tokens -/

theorem tokensFrom_blank {c : Char} (hc : isSpace c = true) (fuel : Nat) (s : List Char) :
    tokensFrom fuel (c :: s) = tokensFrom fuel s := by
  cases fuel with
  | zero => rfl
  | succ fuel => rw [tokensFrom, tokensFrom, List.dropWhile_cons_of_pos hc]

/-- one token is read, which does not start with a blank, and then the others -/
theorem tokensFrom_token {cs rest : List Char} {t : Token}
    (hcs : cs.head?.any (!isSpace ·) = true) (htoken : takeToken (cs ++ rest) = some (t, rest))
    {ts : List Token} (hrest : ∀ fuel, rest.length < fuel → tokensFrom fuel rest = some ts)
    {fuel : Nat} (hfuel : (cs ++ rest).length < fuel) :
    tokensFrom fuel (cs ++ rest) = some (t :: ts) := by
  cases cs with
  | nil => cases hcs
  | cons c cs =>
    obtain ⟨fuel, rfl⟩ := Nat.exists_eq_add_one_of_ne_zero (Nat.ne_zero_of_lt hfuel)
    have hc : ¬ isSpace c = true := by simpa using hcs
    have hlen : rest.length < fuel := by
      rw [List.cons_append, List.length_cons, List.length_append] at hfuel
      omega
    rw [List.cons_append] at htoken ⊢
    rw [tokensFrom, List.dropWhile_cons_of_neg hc]
    show ((takeToken (c :: (cs ++ rest))).bind fun p => (tokensFrom fuel p.2).bind fun ts =>
      some (p.1 :: ts)) = _
    rw [htoken, Option.bind_some, hrest fuel hlen]
    rfl

theorem isSpace_of_isAsciiDigit {c : Char} (hc : isAsciiDigit c = true) : isSpace c = false := by
  rw [isSpace, beq_of_isAsciiDigit hc (by decide), beq_of_isAsciiDigit hc (by decide),
    beq_of_isAsciiDigit hc (by decide), beq_of_isAsciiDigit hc (by decide)]
  rfl

theorem head?_toDigits_any (n : Nat) : (Nat.toDigits 10 n).head?.any (!isSpace ·) = true := by
  cases hd : Nat.toDigits 10 n with
  | nil => exact absurd hd Nat.toDigits_ne_nil
  | cons c ds =>
    have hc : isAsciiDigit c = true :=
      isAsciiDigit_of_mem_toDigits (n := n) (by rw [hd]; exact List.mem_cons_self)
    show (!isSpace c) = true
    rw [isSpace_of_isAsciiDigit hc]
    rfl

theorem tokensFrom_of_written {ts : List Token} {s : List Char} (h : Written ts s) (fuel : Nat)
    (hfuel : s.length < fuel) : tokensFrom fuel s = some ts := by
  induction h generalizing fuel with
  | done =>
    obtain ⟨fuel, rfl⟩ := Nat.exists_eq_add_one_of_ne_zero (Nat.ne_of_gt hfuel)
    rfl
  | blank hc _ ih =>
    rw [tokensFrom_blank hc]
    apply ih
    rw [List.length_cons] at hfuel
    omega
  | mark ht _ ih =>
    obtain ⟨htoken, hhead⟩ := takeToken_mark ht _
    exact tokensFrom_token hhead htoken ih hfuel
  | @text content raw ts s hraw _ ih =>
    have hsplit : '"' :: (raw ++ '"' :: s) = ('"' :: raw ++ ['"']) ++ s := by simp
    have htoken := takeToken_text hraw s
    rw [hsplit] at htoken hfuel ⊢
    exact tokensFrom_token rfl htoken ih hfuel
  | number hn hs _ ih =>
    exact tokensFrom_token (head?_toDigits_any _) (takeToken_number hn hs) ih hfuel

/-- **The tokens of a text are those that it writes out.** -/
theorem tokens_of_written {ts : List Token} {s : List Char} (h : Written ts s) :
    tokens s = some ts :=
  tokensFrom_of_written h _ (Nat.lt_succ_self _)

end VersionFloor.Data.Json
