/-!
# Globs: patterns and their faults

A pattern is one part or a row of parts.  A star passes slashes too; a double star that stands alone
between slashes takes any number of directories.
-/

namespace VersionFloor

inductive GlobError where
  | unclosedClass
  | invalidRange (low high : Char)
  | unopenedGroup
  | unclosedGroup
  | danglingEscape
  deriving DecidableEq, Repr

def GlobError.message : GlobError → String
  | .unclosedClass => "unclosed character class; missing ']'"
  | .invalidRange low high =>
    "invalid range; '" ++ low.toString ++ "' > '" ++ high.toString ++ "'"
  | .unopenedGroup =>
    "unopened alternate group; missing '\x7b' (maybe escape '\x7d' with '[\x7d]'?)"
  | .unclosedGroup =>
    "unclosed alternate group; missing '\x7d' (maybe escape '\x7b' with '[\x7b]'?)"
  | .danglingEscape => "dangling '\\'"

def GlobError.describe (pattern : String) (e : GlobError) : String :=
  "error parsing glob '" ++ pattern ++ "': " ++ e.message

inductive Glob where
  | literal (c : Char)
  | any
  | star
  /-- directories before the first name, none included -/
  | anyDirs
  /-- everything below a directory -/
  | inside
  /-- a slash, or directories between two slashes -/
  | between
  | oneOf (negated : Bool) (ranges : List (Char × Char))
  | choice (alternatives : List Glob)
  | seq (parts : List Glob)
  deriving Repr

end VersionFloor
