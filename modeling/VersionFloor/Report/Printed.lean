import VersionFloor.Report.Summary
import VersionFloor.Text.Split

/-!
# Reports: a text for people

The text is in colour when that is asked for.
-/

namespace VersionFloor

open Text

/-! ### colour -/

/-- the numbers that switch a look on -/
structure Style where
  code : String

namespace Style

def bold : Style := ⟨"1"⟩
def dimmed : Style := ⟨"2"⟩
def red : Style := ⟨"31"⟩
def green : Style := ⟨"32"⟩
def yellow : Style := ⟨"33"⟩
def blue : Style := ⟨"34"⟩
def boldGreen : Style := ⟨"1;32"⟩
def boldCyan : Style := ⟨"1;36"⟩

def resetMark : List Char := "\x1b[0m".toList

/-- puts `again` behind every reset inside a text -/
def restore (again : List Char) : (fuel : Nat) → List Char → List Char
  | 0, s => s
  | fuel + 1, s =>
    match splitFirst resetMark s with
    | some (a, b) => a ++ resetMark ++ again ++ restore again fuel b
    | none => s

def paint (style : Style) (color : Bool) (s : String) : String :=
  if color then
    let on := "\x1b[".toList ++ style.code.toList ++ ['m']
    String.ofList (on ++ restore on s.length s.toList ++ resetMark)
  else s

end Style

/-! ### layout -/

namespace Report

/-- filled up with blanks on the right -/
def padRight (width : Nat) (s : String) : String :=
  s ++ String.ofList (List.replicate (width - s.length) ' ')

def heading (title : String) (count : Nat) : String :=
  "  " ++ title ++ " (" ++ toString count ++ "):\n"

/-- a list under its heading; nothing when it is empty -/
def block (title : String) (items : List String) : String :=
  if items.isEmpty then ""
  else heading title items.length ++ String.join (items.map fun s => "    " ++ s ++ "\n") ++ "\n"

def extensionLine (color : Bool) (e : ExtensionUse) : String :=
  match e.required with
  | some v => padRight 24 e.name ++ " " ++ Style.dimmed.paint color (">= " ++ v.text)
  | none => e.name

def skipLine (color : Bool) (s : Skip) : String :=
  Style.blue.paint color s.path.text ++ "  " ++ Style.dimmed.paint color s.reason

def filesLine (color : Bool) (r : Report) : String :=
  "  " ++ Style.dimmed.paint color "Files:    " ++ toString r.scanned ++
    (if r.skipped.isEmpty then ""
     else "  " ++
      Style.yellow.paint color ("(" ++ toString r.skipped.length ++ " unreadable)")) ++ "\n"

def requiredLine (color : Bool) (r : Report) : String :=
  "  " ++ Style.bold.paint color "Required version: " ++
    (match r.required with
     | some v => Style.boldGreen.paint color v.text
     | none => Style.yellow.paint color r.label) ++ "\n"

def warningLines (color : Bool) (r : Report) : String :=
  match r.warning? with
  | some w =>
    String.join ((lines w).map fun l => "  " ++ Style.yellow.paint color l ++ "\n") ++ "\n"
  | none => ""

def verdictLine (color : Bool) (r : Report) (target : Version) : String :=
  "  " ++ Style.dimmed.paint color ("Target: " ++ target.text) ++
    "  Required: " ++ r.label ++ "  " ++
    (if r.passes (some target) then Style.green.paint color "PASSED"
     else Style.red.paint color "FAILED") ++ "\n\n"

def printed (color : Bool) (path catalog : String) (target : Option Version) (r : Report) :
    String :=
  "\n  " ++ Style.boldCyan.paint color programName ++ " v" ++ programVersion ++ "\n\n" ++
  "  " ++ Style.dimmed.paint color "Scanning: " ++ path ++ "\n" ++
  "  " ++ Style.dimmed.paint color "Catalog:  " ++ catalog ++ "\n" ++
  filesLine color r ++ "\n" ++
  requiredLine color r ++ "\n" ++
  block (Style.bold.paint color "Extensions") (r.extensions.map (extensionLine color)) ++
  block (Style.bold.paint color "Classes") r.classes ++
  block (Style.bold.paint color "Functions") r.functions ++
  warningLines color r ++
  block (Style.dimmed.paint color "Skipped") (r.skipped.map (skipLine color)) ++
  target.elim "" (verdictLine color r)

end Report

end VersionFloor
