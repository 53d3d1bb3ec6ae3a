import VersionFloor.Data.Yaml.Node
import VersionFloor.Data.Yaml.Scan

/-!
# YAML: the document of a text

`read?` fails when the text goes wrong inside the document; what follows the document only decides
whether it is `alone`.
-/

namespace VersionFloor.Data.Yaml

structure Document where
  /-- absent in an empty text -/
  root : Option Node
  /-- nothing follows but marks of the end -/
  alone : Bool
  deriving Repr

/-! ### directives -/

def defaultHandles : List (String × String) := [("!", "!"), ("!!", "tag:yaml.org,2002:")]

/-- The directives up to the start of the document, with the handles they declare.  Neither the
version nor a handle may be given twice. -/
def takeDirectives (versioned : Bool) (handles : List (String × String)) :
    List Token → Option (List (String × String) × List Token)
  | .version major minor :: ts =>
    if versioned || major != 1 || !(minor == 1 || minor == 2) then none
    else takeDirectives true handles ts
  | .handle name target :: ts =>
    if (handles.lookup name).isSome then none
    else takeDirectives versioned ((name, target) :: handles) ts
  | .documentStart :: ts => some (handles ++ defaultHandles, ts)
  | _ => none

/-- whether tokens start with a mark or a directive, so that no node stands there -/
def lacksNode : List Token → Bool
  | .version _ _ :: _ => true
  | .handle _ _ :: _ => true
  | .documentStart :: _ => true
  | .documentEnd :: _ => true
  | .streamEnd :: _ => true
  | _ => false

def startsMarked : List Token → Bool
  | .documentEnd :: _ => false
  | ts => lacksNode ts

def endsText (ts : List Token) : Bool :=
  (ts.dropWhile (· == .documentEnd)).head? == some .streamEnd

def readRoot (handles : List (String × String)) (ts : List Token) : Option Document := do
  let (n, r) ← readNode handles (3 * ts.length + 3) true false ⟨ts, []⟩
  return ⟨some n, endsText r.tokens⟩

def ofTokens? (ts : List Token) : Option Document :=
  if ts.head? = some .streamEnd then some ⟨none, true⟩
  else if startsMarked ts then do
    let (handles, ts) ← takeDirectives false [] ts
    if lacksNode ts then some ⟨some .blank, endsText ts⟩ else readRoot handles ts
  else readRoot defaultHandles ts

def read? (s : String) : Option Document := ofTokens? (tokens s)

/-! ### aliases -/

/-- the node of a number; of several with one number the last one counts -/
def Document.anchored? (d : Document) (id : Nat) : Option Node :=
  (d.root.elim [] Node.anchored).reverse.lookup id

/-- the node that an alias stands for -/
def Document.target? (d : Document) : Node → Option Node
  | .alias id => d.anchored? id
  | n => some n

def Document.size (d : Document) : Nat := d.root.elim 1 Node.size

end VersionFloor.Data.Yaml
