/-!
# Text: cutting

A text is cut at every occurrence of one character, at the first place where a mark stands, or into
lines.
-/

namespace VersionFloor.Text

/-- the pieces between the separators; there is always one more piece than separators -/
def splitAll (sep : Char) : List Char → List (List Char)
  | [] => [[]]
  | c :: rest =>
    if c = sep then [] :: splitAll sep rest
    else match splitAll sep rest with
      | [] => [[c]]
      | piece :: more => (c :: piece) :: more

/-- the two sides of the first place where `mark` stands -/
def splitFirst (mark : List Char) : List Char → Option (List Char × List Char)
  | [] => if mark = [] then some ([], []) else none
  | c :: rest =>
    if mark.isPrefixOf (c :: rest) then some ([], (c :: rest).drop mark.length)
    else (splitFirst mark rest).map fun (a, b) => (c :: a, b)

/-- what follows the last separator, the whole text when there is none -/
def afterLast (sep : Char) (s : List Char) : List Char :=
  (s.reverse.takeWhile (· ≠ sep)).reverse

def joinWith (sep : String) : List String → String
  | [] => ""
  | [s] => s
  | s :: rest => s ++ sep ++ joinWith sep rest

/-- the lines of a text; a return in front of a line end belongs to the end -/
def lines (s : String) : List String :=
  let pieces := splitAll '\n' s.toList
  let ended := pieces.dropLast.map fun l => if l.getLast? = some '\r' then l.dropLast else l
  let last := pieces.getLastD []
  (if last.isEmpty then ended else ended ++ [last]).map String.ofList

theorem splitAll_ne_nil (sep : Char) (s : List Char) : splitAll sep s ≠ [] := by
  cases s with
  | nil => simp [splitAll]
  | cons c rest =>
    rw [splitAll]
    split
    · simp
    · split <;> simp

end VersionFloor.Text
