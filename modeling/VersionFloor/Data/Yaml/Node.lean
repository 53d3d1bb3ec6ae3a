import VersionFloor.Data.Yaml.Token

/-!
# YAML: nodes

The nodes of a document are built from its tokens.  Anchored nodes are numbered by how many names
have been given before; an alias holds the number that its name had last.
-/

namespace VersionFloor.Data.Yaml

inductive Node where
  | scalar (anchor : Option Nat) (tag : Option String) (style : Style) (text : String)
  | list (anchor : Option Nat) (tag : Option String) (items : List Node)
  | record (anchor : Option Nat) (tag : Option String) (pairs : List (Node × Node))
  | alias (id : Nat)
  deriving Repr

namespace Node

/-- what is left out -/
def blank : Node := .scalar none none .plain ""

def isBlank : Node → Bool
  | .scalar _ _ style text => style == .plain && text == ""
  | _ => false

mutual

/-- how many scalars, aliases, openings and closings a node takes -/
def size : Node → Nat
  | .scalar _ _ _ _ => 1
  | .alias _ => 1
  | .list _ _ items => 2 + sizeAll items
  | .record _ _ pairs => 2 + sizePairs pairs

def sizeAll : List Node → Nat
  | [] => 0
  | n :: ns => n.size + sizeAll ns

def sizePairs : List (Node × Node) → Nat
  | [] => 0
  | (k, v) :: ps => k.size + v.size + sizePairs ps

end

mutual

/-- the anchored nodes in the order they begin -/
def anchored : Node → List (Nat × Node)
  | .scalar a t s x => (a.map fun i => (i, .scalar a t s x)).toList
  | .alias _ => []
  | .list a t items => (a.map fun i => (i, .list a t items)).toList ++ anchoredAll items
  | .record a t pairs => (a.map fun i => (i, .record a t pairs)).toList ++ anchoredPairs pairs

def anchoredAll : List Node → List (Nat × Node)
  | [] => []
  | n :: ns => n.anchored ++ anchoredAll ns

def anchoredPairs : List (Node × Node) → List (Nat × Node)
  | [] => []
  | (k, v) :: ps => k.anchored ++ v.anchored ++ anchoredPairs ps

end

end Node

/-! ### from tokens to nodes -/

structure Reader where
  tokens : List Token
  /-- the number that each name has; one entry for a name -/
  names : List (String × Nat)

def nameNode (name : String) (names : List (String × Nat)) : List (String × Nat) :=
  (name, names.length) :: names.filter (·.1 != name)

/-- what handles stand for; a handle that is empty leaves the tag as it is -/
def tagOf? (handles : List (String × String)) (handle suffix : String) : Option String :=
  if handle = "" then some suffix else (handles.lookup handle).map (· ++ suffix)

/-- the properties of a node, an anchor and a tag in either order -/
structure Properties where
  anchor : Option String
  tag : Option (String × String)

def takeProperties : List Token → Properties × List Token
  | .anchor a :: .tag h s :: ts => (⟨some a, some (h, s)⟩, ts)
  | .anchor a :: ts => (⟨some a, none⟩, ts)
  | .tag h s :: .anchor a :: ts => (⟨some a, some (h, s)⟩, ts)
  | .tag h s :: ts => (⟨none, some (h, s)⟩, ts)
  | ts => (⟨none, none⟩, ts)

/-- a scalar whose tag is a lone mark has no tag -/
def scalarTag (tag : Option String) : Option String := tag.filter (· != "!")

def endsBlockItem : List Token → Bool
  | .item :: _ => true
  | .closeBlock :: _ => true
  | _ => false

def endsBlockPart : List Token → Bool
  | .key :: _ => true
  | .value :: _ => true
  | .closeBlock :: _ => true
  | _ => false

/-- also where a list stands in the place of a value without an indentation of its own -/
def endsLooseItem : List Token → Bool
  | .item :: _ => true
  | ts => endsBlockPart ts

def endsFlowKey (closing : Token) : List Token → Bool
  | .value :: _ => true
  | .comma :: _ => true
  | t :: _ => t == closing
  | [] => false

def endsFlowValue (closing : Token) : List Token → Bool
  | .comma :: _ => true
  | t :: _ => t == closing
  | [] => false

section

variable (handles : List (String × String))

mutual

/-- One node.  Blocks may open where `block` is set, lists without an indentation of their own where
`loose` is.  `fuel` bounds the depth of all that is read. -/
def readNode : (fuel : Nat) → (block loose : Bool) → Reader → Option (Node × Reader)
  | 0, _, _, _ => none
  | fuel + 1, block, loose, r =>
    match r.tokens with
    | .alias name :: ts => (r.names.lookup name).map fun id => (.alias id, { r with tokens := ts })
    | ts => do
      let (p, ts) := takeProperties ts
      let tag ← match p.tag with
        | none => some none
        | some (h, s) => (tagOf? handles h s).map some
      let anchor := p.anchor.map fun _ => r.names.length
      let names := p.anchor.elim r.names (nameNode · r.names)
      let r : Reader := ⟨ts.drop 1, names⟩
      match ts with
      | .scalar style text :: _ => return (.scalar anchor (scalarTag tag) style text, r)
      | .openFlowList :: _ =>
        let (items, r) ← readFlowItems fuel true r
        return (.list anchor tag items, r)
      | .openFlowRecord :: _ =>
        let (pairs, r) ← readFlowPairs fuel true r
        return (.record anchor tag pairs, r)
      | t :: _ =>
        if loose && t == .item then
          let (items, r) ← readLooseItems fuel { r with tokens := ts }
          return (.list anchor tag items, r)
        else if block && t == .openBlockList then
          let (items, r) ← readBlockItems fuel r
          return (.list anchor tag items, r)
        else if block && t == .openBlockRecord then
          let (pairs, r) ← readBlockPairs fuel r
          return (.record anchor tag pairs, r)
        else if t != .fault && (anchor.isSome || tag.isSome) then
          return (.scalar anchor tag .plain "", { r with tokens := ts })
        else none
      | [] => none

/-- a node, or a blank one where nothing is written -/
def readPart : (fuel : Nat) → (absent block loose : Bool) → Reader → Option (Node × Reader)
  | 0, _, _, _, _ => none
  | fuel + 1, absent, block, loose, r =>
    if absent then some (.blank, r) else readNode fuel block loose r

def readBlockItems : (fuel : Nat) → Reader → Option (List Node × Reader)
  | 0, _ => none
  | fuel + 1, r =>
    match r.tokens with
    | .item :: ts => do
      let (n, r) ← readPart fuel (endsBlockItem ts) true false { r with tokens := ts }
      let (ns, r) ← readBlockItems fuel r
      return (n :: ns, r)
    | .closeBlock :: ts => some ([], { r with tokens := ts })
    | _ => none

def readLooseItems : (fuel : Nat) → Reader → Option (List Node × Reader)
  | 0, _ => none
  | fuel + 1, r =>
    match r.tokens with
    | .item :: ts => do
      let (n, r) ← readPart fuel (endsLooseItem ts) true false { r with tokens := ts }
      let (ns, r) ← readLooseItems fuel r
      return (n :: ns, r)
    | _ => some ([], r)

def readBlockPairs : (fuel : Nat) → Reader → Option (List (Node × Node) × Reader)
  | 0, _ => none
  | fuel + 1, r =>
    match r.tokens with
    | .key :: ts => do
      let (k, r) ← readPart fuel (endsBlockPart ts) true true { r with tokens := ts }
      let (v, r) ← match r.tokens with
        | .value :: ts => readPart fuel (endsBlockPart ts) true true { r with tokens := ts }
        | _ => some (.blank, r)
      let (ps, r) ← readBlockPairs fuel r
      return ((k, v) :: ps, r)
    | .closeBlock :: ts => some ([], { r with tokens := ts })
    | _ => none

/-- A pair of its own among the items of a list.  Where the key is left out, what follows its mark
is passed over. -/
def readLonePair : (fuel : Nat) → Reader → Option (Node × Reader)
  | 0, _ => none
  | fuel + 1, r => do
    let absent := endsFlowKey .closeFlowList r.tokens
    let (k, r) ←
      if absent then some (.blank, { r with tokens := r.tokens.drop 1 })
      else readNode fuel false false r
    let (v, r) ← match r.tokens with
      | .value :: ts =>
        readPart fuel (endsFlowValue .closeFlowList ts) false false { r with tokens := ts }
      | _ => some (.blank, r)
    return (.record none none [(k, v)], r)

/-- `first` where no comma stands in front -/
def readFlowItems : (fuel : Nat) → (first : Bool) → Reader → Option (List Node × Reader)
  | 0, _, _ => none
  | fuel + 1, first, r =>
    match first, r.tokens with
    | _, .closeFlowList :: ts => some ([], { r with tokens := ts })
    | false, .comma :: .closeFlowList :: ts => some ([], { r with tokens := ts })
    | first, ts => do
      let ts ← if first then some ts else match ts with
        | .comma :: ts => some ts
        | _ => none
      let (n, r) ← match ts with
        | .key :: ts => readLonePair fuel { r with tokens := ts }
        | ts => readNode fuel false false { r with tokens := ts }
      let (ns, r) ← readFlowItems fuel false r
      return (n :: ns, r)

def readFlowPairs : (fuel : Nat) → (first : Bool) → Reader → Option (List (Node × Node) × Reader)
  | 0, _, _ => none
  | fuel + 1, first, r =>
    match first, r.tokens with
    | _, .closeFlowRecord :: ts => some ([], { r with tokens := ts })
    | false, .comma :: .closeFlowRecord :: ts => some ([], { r with tokens := ts })
    | first, ts => do
      let ts ← if first then some ts else match ts with
        | .comma :: ts => some ts
        | _ => none
      let (p, r) ← readFlowPair fuel { r with tokens := ts }
      let (ps, r) ← readFlowPairs fuel false r
      return (p :: ps, r)

/-- a key without a mark has no value -/
def readFlowPair : (fuel : Nat) → Reader → Option ((Node × Node) × Reader)
  | 0, _ => none
  | fuel + 1, r =>
    match r.tokens with
    | .key :: ts => do
      let (k, r) ← readPart fuel (endsFlowKey .closeFlowRecord ts) false false
        { r with tokens := ts }
      let (v, r) ← match r.tokens with
        | .value :: ts =>
          readPart fuel (endsFlowValue .closeFlowRecord ts) false false { r with tokens := ts }
        | _ => some (.blank, r)
      return ((k, v), r)
    | _ => do
      let (k, r) ← readNode fuel false false r
      return ((k, .blank), r)

end

end

end VersionFloor.Data.Yaml
