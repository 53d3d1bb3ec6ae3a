import VersionFloor.Text.Case

/-!
# Source: the PHP regions of a file

A region runs from an opening tag to the next closing tag, both included, or to the end of the file.
-/

namespace VersionFloor.Source

open Text

def openTag : List Char := "<?php".toList

/-- a text up to its first closing tag, and what follows the tag -/
def takeBody : List Char → List Char × List Char
  | [] => ([], [])
  | '?' :: '>' :: rest => (['?', '>'], rest)
  | c :: rest =>
    let body := takeBody rest
    (c :: body.1, body.2)

theorem takeBody_length (s : List Char) : (takeBody s).2.length ≤ s.length := by
  fun_induction takeBody s with
  | case1 => simp
  | case2 rest => simp; omega
  | case3 c rest _ body ih => exact Nat.le_succ_of_le ih

def regions : List Char → List (List Char)
  | [] => []
  | c :: rest =>
    if startsSame openTag (c :: rest) then
      let body := takeBody (rest.drop 4)
      (c :: rest.take 4 ++ body.1) :: regions body.2
    else regions rest
termination_by s => s.length
decreasing_by
  · exact Nat.lt_succ_of_le (Nat.le_trans (takeBody_length _) (by simp))
  · exact Nat.lt_succ_self _

end VersionFloor.Source
