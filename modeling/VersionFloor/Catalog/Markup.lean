import VersionFloor.Catalog.Draft
import VersionFloor.Data.Xml.Attribute
import VersionFloor.Data.Xml.Node

/-!
# Catalogs: elements of XML

The root holds `function` elements one after the other; each field of an entry is an element of its
own.  Elements of other names are passed over, but no field may come twice.
-/

namespace VersionFloor

open Data.Xml

namespace Markup

/-- text between the fields counts for nothing, yet its references must resolve -/
def skipNode (n : Node) : Except CatalogFault Unit :=
  match n with
  | .text raw => if (resolve raw).isSome then .ok () else .error .undecodable
  | n => if hasFault n then .error .undecodable else .ok ()

/-- a field that stands for nothing; what is in it need only be well formed -/
def hiddenField (empty : α) (children : List Node) : Except CatalogFault (Option α) :=
  if anyFault children then .error .undecodable else .ok (some empty)

/-- `hidden` tells that the field counts as absent -/
def textField (name : List Char) (hidden : Bool) (old : Option String) (children : List Node) :
    Except CatalogFault (Option String) :=
  if old.isSome then .error (.repeatedField (String.ofList name))
  else if hidden then hiddenField "" children
  else match textOf? children with
    | some s => .ok (some (String.ofList s))
    | none => .error .undecodable

def extensionFields (scope : Scope) (e : ExtensionDraft) : List Node →
    Except CatalogFault ExtensionDraft
  | [] => .ok e
  | n :: ns => do
    match n with
    | .element name attributes children =>
      let name := localName name
      let field := textField name (scope.hides attributes)
      match String.ofList name with
      | "name" => extensionFields scope { e with name := ← field e.name children } ns
      | "version" => extensionFields scope { e with version := ← field e.version children } ns
      | _ => skipNode n; extensionFields scope e ns
    | n => skipNode n; extensionFields scope e ns

def extensionField (scope : Scope) (old : Option ExtensionDraft) (attributes : List Char)
    (children : List Node) : Except CatalogFault (Option ExtensionDraft) :=
  if old.isSome then .error (.repeatedField "extension")
  else if scope.hides attributes then hiddenField ⟨none, none⟩ children
  else if Attribute.wellFormed attributes then
    (extensionFields (scope.enter attributes) ⟨none, none⟩ children).map some
  else .error .undecodable

def entryFields (scope : Scope) (d : Draft) : List Node → Except CatalogFault Draft
  | [] => .ok d
  | n :: ns => do
    match n with
    | .element name attributes children =>
      let name := localName name
      let field := textField name (scope.hides attributes)
      match String.ofList name with
      | "name" => entryFields scope { d with name := ← field d.name children } ns
      | "class" => entryFields scope { d with owner := ← field d.owner children } ns
      | "version" => entryFields scope { d with version := ← field d.version children } ns
      | "extension" =>
        let e ← extensionField scope d.extension attributes children
        entryFields scope { d with extension := e } ns
      | "description" =>
        entryFields scope { d with description := ← field d.description children } ns
      | _ => skipNode n; entryFields scope d ns
    | n => skipNode n; entryFields scope d ns

def entry (scope : Scope) (attributes : List Char) (children : List Node) :
    Except CatalogFault Draft :=
  if Attribute.wellFormed attributes then
    entryFields (scope.enter attributes) ⟨none, none, none, none, none⟩ children
  else .error .undecodable

/-- whether a node is text that is more than layout -/
def isContent : Node → Bool
  | .text raw => !raw.all isSpace
  | .verbatim _ => true
  | _ => false

/-- The entries of the root.  `run` is the name of the elements in the current run of entries;
`seen` tells that a run has begun, and a second one is refused, as is text inside a run. -/
def entries (scope : Scope) (run : Option (List Char)) (seen : Bool) :
    List Node → Except CatalogFault (List Draft)
  | [] => .ok []
  | n :: ns => do
    match n with
    | .element name attributes children =>
      if run = some name then
        return (← entry scope attributes children) :: (← entries scope run seen ns)
      else if String.ofList (localName name) = "function" then
        if seen then .error (.repeatedField "function")
        else
          let d ← entry scope attributes children
          return d :: (← entries scope (some name) true ns)
      else
        skipNode n
        entries scope none seen ns
    | n =>
      if run.isSome && isContent n then .error .undecodable
      else
        skipNode n
        entries scope run seen ns

def drafts (s : String) : Except CatalogFault (List Draft) :=
  match root s with
  | .element _ attributes children =>
    if Attribute.wellFormed attributes then
      entries (Scope.outermost.enter attributes) none false children
    else .error .undecodable
  | _ => .error .undecodable

end Markup

end VersionFloor
