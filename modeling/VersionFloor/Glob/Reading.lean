import VersionFloor.Glob.Basic

/-!
# Globs: reading a pattern

A text is read a part at a time from the left.
-/

namespace VersionFloor.Glob

/-- the members of a class after its opening; `openRange` when a range waits for its end -/
def takeClass (first openRange : Bool) (ranges : List (Char × Char)) :
    List Char → Except GlobError (List (Char × Char) × List Char)
  | [] => .error .unclosedClass
  | c :: rest =>
    if c = ']' ∧ ¬ first then
      .ok ((if openRange then ranges ++ [('-', '-')] else ranges), rest)
    else if openRange then
      match ranges.getLast? with
      | some (low, _) =>
        if c < low then .error (.invalidRange low c)
        else takeClass false false (ranges.dropLast ++ [(low, c)]) rest
      | none => takeClass false false [(c, c)] rest
    else if c = '-' ∧ ¬ first then takeClass false true ranges rest
    else takeClass false false (ranges ++ [(c, c)]) rest

/-- one alternative of a group, or the whole pattern -/
structure Level where
  /-- the parts read so far, the last one first -/
  parts : List Glob
  /-- the alternatives before this one, the last one first -/
  before : List Glob

structure Reading where
  current : Level
  /-- the levels around the current group, the innermost first -/
  outer : List Level
  /-- the character just before the next one -/
  previous : Option Char

namespace Reading

def start : Reading := ⟨⟨[], []⟩, [], none⟩

def push (r : Reading) (g : Glob) : Reading :=
  { r with current := { r.current with parts := g :: r.current.parts } }

def setLast (r : Reading) (g : Glob) : Reading :=
  { r with current := { r.current with parts := g :: r.current.parts.drop 1 } }

def inGroup (r : Reading) : Bool := !r.outer.isEmpty

/-- two stars in a row that stand for no directories -/
def twoStars (r : Reading) (rest : List Char) : Reading × List Char :=
  ({ (r.push .star).push .star with previous := some '*' }, rest)

/-- A double star before anything else: it covers directories when a slash follows, which is taken
along, or when the pattern ends. -/
def leadingStars (r : Reading) (rest : List Char) : Reading × List Char :=
  match rest with
  | [] => (r.push .anyDirs, [])
  | '/' :: rest' => ({ r.push .anyDirs with previous := some '/' }, rest')
  | _ => r.twoStars rest

/-- A double star behind a slash takes the place of the slash, or of the directories there. -/
def innerStars (r : Reading) (last : Glob) (rest : List Char) : Reading × List Char :=
  let place (new : Glob) : Glob :=
    match last with
    | .anyDirs => .anyDirs
    | .inside => .inside
    | _ => new
  match rest with
  | [] => (r.setLast (place .inside), [])
  | '/' :: rest' => ({ r.setLast (place .between) with previous := some '/' }, rest')
  | c :: _ =>
    if (c = ',' ∨ c = '\x7d') ∧ r.inGroup then
      ({ r.setLast (place .inside) with previous := some '*' }, rest)
    else r.twoStars rest

/-- `r.previous` is the character before the two stars -/
def doubleStar (r : Reading) (rest : List Char) : Reading × List Char :=
  match r.current.parts with
  | [] => r.leadingStars rest
  | last :: _ =>
    if r.previous = some '/' ∨
        (r.inGroup ∧ (r.previous = some ',' ∨ r.previous = some '\x7b')) then
      r.innerStars last rest
    else r.twoStars rest

def openGroup (r : Reading) : Reading :=
  { r with current := ⟨[], []⟩, outer := r.current :: r.outer, previous := some '\x7b' }

def nextAlternative (r : Reading) : Reading :=
  if r.inGroup then
    { r with
      current := ⟨[], .seq r.current.parts.reverse :: r.current.before⟩, previous := some ',' }
  else { r.push (.literal ',') with previous := some ',' }

def closeGroup (r : Reading) : Except GlobError Reading :=
  match r.outer with
  | [] => .error .unopenedGroup
  | o :: os =>
    let alternatives := (.seq r.current.parts.reverse :: r.current.before).reverse
    .ok ({ current := { o with parts := .choice alternatives :: o.parts },
           outer := os, previous := some '\x7d' })

/-- reads the part that starts with `c` -/
def step (r : Reading) (c : Char) (rest : List Char) : Except GlobError (Reading × List Char) :=
  match c with
  | '?' => .ok ({ r.push .any with previous := some c }, rest)
  | '*' =>
    match rest with
    | '*' :: rest' => .ok (r.doubleStar rest')
    | _ => .ok ({ r.push .star with previous := some c }, rest)
  | '[' => do
    let (negated, members) := match rest with
      | '!' :: m => (true, m)
      | '^' :: m => (true, m)
      | m => (false, m)
    let (ranges, rest') ← takeClass true false [] members
    return ({ r.push (.oneOf negated ranges) with previous := some ']' }, rest')
  | '\x7b' => .ok (r.openGroup, rest)
  | '\x7d' => do return (← r.closeGroup, rest)
  | ',' => .ok (r.nextAlternative, rest)
  | '\\' =>
    match rest with
    | [] => .error .danglingEscape
    | e :: rest' => .ok ({ r.push (.literal e) with previous := some e }, rest')
  | c => .ok ({ r.push (.literal c) with previous := some c }, rest)

/-- `fuel` bounds the number of parts -/
def run : (fuel : Nat) → Reading → List Char → Except GlobError Glob
  | 0, _, _ => .error .unclosedGroup
  | fuel + 1, r, s =>
    match s with
    | [] => if r.inGroup then .error .unclosedGroup else .ok (.seq r.current.parts.reverse)
    | c :: rest => do
      let (r, rest) ← r.step c rest
      run fuel r rest

end Reading

/-- every part takes a character at least, so the length is fuel enough -/
def parse (s : String) : Except GlobError Glob :=
  Reading.run (s.length + 1) .start s.toList

/-- the patterns of a list, or the first one that is not well formed, with its fault -/
def parseAll : List String → Except (String × GlobError) (List Glob)
  | [] => .ok []
  | s :: rest =>
    match parse s with
    | .error e => .error (s, e)
    | .ok g => do return g :: (← parseAll rest)

end VersionFloor.Glob
