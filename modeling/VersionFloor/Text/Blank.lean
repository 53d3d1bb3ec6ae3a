/-!
# Text: white space and trimming

`isBlank` is the `White_Space` class; `trim` drops it at both ends.
-/

namespace VersionFloor.Text

def isBlank (c : Char) : Bool :=
  let n := c.toNat
  (9 ≤ n && n ≤ 13) || n == 0x20 || n == 0x85 || n == 0xA0 || n == 0x1680 ||
    (0x2000 ≤ n && n ≤ 0x200A) || n == 0x2028 || n == 0x2029 || n == 0x202F || n == 0x205F ||
    n == 0x3000

/-- drops the characters of a class at both ends -/
def trimBy (p : Char → Bool) (s : List Char) : List Char :=
  ((s.dropWhile p).reverse.dropWhile p).reverse

def trim (s : String) : String := String.ofList (trimBy isBlank s.toList)

/-- the trimmed text, absent when nothing is left -/
def nonBlank? (s : String) : Option String :=
  if trim s = "" then none else some (trim s)

/-! ### trimming twice -/

theorem dropWhile_idem (p : Char → Bool) (s : List Char) :
    (s.dropWhile p).dropWhile p = s.dropWhile p := by
  induction s with
  | nil => rfl
  | cons c s ih =>
    rw [List.dropWhile_cons]
    split
    · exact ih
    · rw [List.dropWhile_cons, if_neg (by assumption)]

/-- a list that starts like one that starts outside `p` starts outside `p` -/
theorem dropWhile_left (p : Char → Bool) (r t : List Char)
    (h : (r ++ t).dropWhile p = r ++ t) : r.dropWhile p = r := by
  cases r with
  | nil => rfl
  | cons c r =>
    rw [List.dropWhile_cons]
    split
    · rename_i hc
      rw [List.cons_append, List.dropWhile_cons, if_pos hc] at h
      have hl := (List.dropWhile_sublist p (l := r ++ t)).length_le
      rw [h] at hl
      exact absurd hl (Nat.not_succ_le_self _)
    · rfl

theorem trimBy_split (p : Char → Bool) (s : List Char) :
    trimBy p s ++ ((s.dropWhile p).reverse.takeWhile p).reverse = s.dropWhile p := by
  rw [trimBy, ← List.reverse_append, List.takeWhile_append_dropWhile, List.reverse_reverse]

theorem trimBy_idem (p : Char → Bool) (s : List Char) : trimBy p (trimBy p s) = trimBy p s := by
  have h : (trimBy p s).dropWhile p = trimBy p s := by
    apply dropWhile_left p _ ((s.dropWhile p).reverse.takeWhile p).reverse
    rw [trimBy_split, dropWhile_idem]
  show (((trimBy p s).dropWhile p).reverse.dropWhile p).reverse = trimBy p s
  rw [h, trimBy, List.reverse_reverse, dropWhile_idem]

theorem trim_idem (s : String) : trim (trim s) = trim s := by
  rw [trim, trim, String.toList_ofList, trimBy_idem]

theorem nonBlank?_of_nonBlank? {s t : String} (h : nonBlank? s = some t) :
    nonBlank? t = some t := by
  unfold nonBlank? at h
  split at h
  · contradiction
  · cases h
    rename_i hs
    rw [nonBlank?, trim_idem, if_neg hs]

end VersionFloor.Text
