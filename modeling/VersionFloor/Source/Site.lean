import VersionFloor.Text.Blank
import VersionFloor.Text.Case
import VersionFloor.Text.Word

/-!
# Source: call sites

A site is a name, arguments without a closing parenthesis between parentheses, and a semicolon;
`new` or `function` may stand before the name.  `sites` finds them from left to right, each one
behind the end of the one before.
-/

namespace VersionFloor.Source

open Text

inductive Keyword where
  | new
  | function
  deriving DecidableEq, Repr

def Keyword.text : Keyword → List Char
  | .new => "new".toList
  | .function => "function".toList

/-- the name as it stands there, with namespaces and colons -/
structure Site where
  keyword : Option Keyword
  name : List Char
  deriving DecidableEq, Repr

def isNameChar (c : Char) : Bool := isAsciiWord c || c == ':' || c == '\\'

/-- whether a word can start between `before` and `c` -/
def isWordStart (before : Option Char) (c : Char) : Bool :=
  isWord c && !(before.any isWord)

/-- what follows the semicolon behind the arguments -/
def afterArguments? (s : List Char) : Option (List Char) :=
  match s.dropWhile isBlank with
  | '(' :: s =>
    match (s.dropWhile (· != ')')).drop 1 |>.dropWhile isBlank with
    | ';' :: s => some s
    | _ => none
  | _ => none

/-- a name with its arguments -/
def takeNamed (keyword : Option Keyword) (s : List Char) : Option (Site × List Char) :=
  match s.takeWhile isNameChar with
  | [] => none
  | name => (afterArguments? (s.dropWhile isNameChar)).map fun after => (⟨keyword, name⟩, after)

/-- a site with this keyword, blanks between the keyword and the name -/
def takeAfter (k : Keyword) (s : List Char) : Option (Site × List Char) :=
  if startsSame k.text s then
    match s.drop k.text.length with
    | b :: rest => if isBlank b then takeNamed (some k) (rest.dropWhile isBlank) else none
    | [] => none
  else none

/-- a site that starts with `c`; one with a keyword goes before one without -/
def takeSite (before : Option Char) (c : Char) (rest : List Char) : Option (Site × List Char) :=
  let marked :=
    if isWordStart before c then
      (takeAfter .new (c :: rest)).or (takeAfter .function (c :: rest))
    else none
  marked.or (takeNamed none (c :: rest))

/-! ### a site ends with its semicolon -/

theorem afterArguments?_suffix {s after : List Char} (h : afterArguments? s = some after) :
    (';' :: after) <:+ s := by
  unfold afterArguments? at h
  split at h
  · rename_i r hr
    split at h
    · rename_i t ht
      cases h
      have hopen : r <:+ s.dropWhile isBlank := hr ▸ List.suffix_cons '(' r
      rw [← ht]
      exact (List.dropWhile_suffix _).trans ((List.drop_suffix _ _).trans
        ((List.dropWhile_suffix _).trans (hopen.trans (List.dropWhile_suffix _))))
    · cases h
  · cases h

theorem takeNamed_suffix {k : Option Keyword} {s after : List Char} {site : Site}
    (h : takeNamed k s = some (site, after)) : (';' :: after) <:+ s := by
  unfold takeNamed at h
  split at h
  · cases h
  · obtain ⟨a, ha, he⟩ := Option.map_eq_some_iff.mp h
    cases he
    exact (afterArguments?_suffix ha).trans (List.dropWhile_suffix _)

theorem takeAfter_suffix {k : Keyword} {s after : List Char} {site : Site}
    (h : takeAfter k s = some (site, after)) : (';' :: after) <:+ s := by
  unfold takeAfter at h
  split at h
  · split at h
    · rename_i b rest hs
      split at h
      · have hrest : rest <:+ s := (List.suffix_cons b rest).trans (hs ▸ List.drop_suffix _ s)
        exact (takeNamed_suffix h).trans ((List.dropWhile_suffix _).trans hrest)
      · cases h
    · cases h
  · cases h

theorem takeSite_suffix {before : Option Char} {c : Char} {rest after : List Char} {site : Site}
    (h : takeSite before c rest = some (site, after)) : (';' :: after) <:+ (c :: rest) := by
  unfold takeSite at h
  rcases Option.or_eq_some_iff.mp h with h | ⟨_, h⟩
  · split at h
    · rcases Option.or_eq_some_iff.mp h with h | ⟨_, h⟩
      · exact takeAfter_suffix h
      · exact takeAfter_suffix h
    · cases h
  · exact takeNamed_suffix h

theorem takeSite_length {before : Option Char} {c : Char} {rest after : List Char} {site : Site}
    (h : takeSite before c rest = some (site, after)) : after.length < (c :: rest).length :=
  (takeSite_suffix h).length_le

/-- `before` is the character in front of the text -/
def sites (before : Option Char) : List Char → List Site
  | [] => []
  | c :: rest =>
    match _h : takeSite before c rest with
    | some (site, after) => site :: sites (some ';') after
    | none => sites (some c) rest
termination_by s => s.length
decreasing_by
  · exact takeSite_length _h
  · exact Nat.lt_succ_self _

end VersionFloor.Source
