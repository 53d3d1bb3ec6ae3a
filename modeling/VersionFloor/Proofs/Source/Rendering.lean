import VersionFloor.Source.Call

/-!
# Source: how calls can be written

A script is an opening tag and statements with blanks between them; every statement writes out one
call, with namespaces in front of its names and any arguments that hold neither a closing
parenthesis nor a closing tag.  The parts carry what makes them well formed, so every value of
`Script` is a text that may stand in a file, and `Script.calls` is what can be read back from it: a
namespace behind the colons of a method hides its owner.
-/

namespace VersionFloor.Source

open Text

structure Identifier where
  chars : List Char
  ne_nil : chars ≠ []
  word : ∀ c ∈ chars, isAsciiWord c = true

/-- white space, or nothing -/
structure Space where
  chars : List Char
  blank : ∀ c ∈ chars, isBlank c = true

/-- identifiers with a backslash behind each of them, and maybe one in front -/
structure Namespace where
  rooted : Bool
  parts : List Identifier

namespace Namespace

def isNone (n : Namespace) : Bool := !n.rooted && n.parts.isEmpty

def text (n : Namespace) : List Char :=
  (if n.rooted then ['\\'] else []) ++ n.parts.flatMap fun i => i.chars ++ ['\\']

end Namespace

/-- what is called, as it is written -/
inductive Callee where
  | free (name : Identifier) (notSelf : isSelf name.chars = false)
      (notControl : isControl name.chars = false)
  /-- the namespace stands between the colons and the name -/
  | method (owner : Identifier) (space : Namespace) (name : Identifier)
      (notSelf : isSelf owner.chars = false)
  /-- the keyword may be in any case -/
  | construction (keyword : List Char) (isNew : keyword.map asciiLower = Keyword.new.text)
      (gap : Space) (gap_ne_nil : gap.chars ≠ []) (owner : Identifier)
      (notSelf : isSelf owner.chars = false)

namespace Callee

def keyword : Callee → Option Keyword
  | construction .. => some .new
  | _ => none

/-- the keyword and the blanks behind it -/
def lead : Callee → List Char
  | construction keyword _ gap _ _ _ => keyword ++ gap.chars
  | _ => []

def name : Callee → List Char
  | free name _ _ => name.chars
  | method owner space name _ => owner.chars ++ (colons ++ (space.text ++ name.chars))
  | construction _ _ _ _ owner _ => owner.chars

/-- what can be read back -/
def call? : Callee → Option Call
  | free name _ _ => some (.free (String.ofList name.chars))
  | method owner space name _ =>
    if space.isNone then some (.method (String.ofList owner.chars) (String.ofList name.chars))
    else if isSelf name.chars || isControl name.chars then none
    else some (.free (String.ofList name.chars))
  | construction _ _ _ _ owner _ => some (.construction (String.ofList owner.chars))

end Callee

/-- the arguments of a call, up to its semicolon -/
structure Arguments where
  before : Space
  inside : List Char
  closed : ')' ∉ inside
  behind : Space

def Arguments.text (a : Arguments) : List Char :=
  a.before.chars ++ '(' :: (a.inside ++ ')' :: (a.behind.chars ++ [';']))

structure Statement where
  callee : Callee
  space : Namespace
  arguments : Arguments
  untagged : ¬ ['?', '>'] <:+: arguments.inside

namespace Statement

/-- the name with its namespace -/
def fullName (s : Statement) : List Char := s.space.text ++ s.callee.name

def text (s : Statement) : List Char := s.callee.lead ++ (s.fullName ++ s.arguments.text)

/-- what a scan is to make of a statement -/
def site (s : Statement) : Site := ⟨s.callee.keyword, s.fullName⟩

end Statement

structure Script where
  gap : Space
  gap_ne_nil : gap.chars ≠ []
  /-- blanks follow each statement -/
  statements : List (Statement × Space)

namespace Script

def body (statements : List (Statement × Space)) : List Char :=
  statements.flatMap fun (s, space) => s.text ++ space.chars

def text (p : Script) : List Char := openTag ++ (p.gap.chars ++ body p.statements)

def calls (p : Script) : List Call := p.statements.filterMap fun (s, _) => s.callee.call?

end Script

end VersionFloor.Source
