import VersionFloor.Text.Utf8

/-!
# Files: trees

A directory holds its entries under their names; a link holds the text it points to.
-/

namespace VersionFloor

open Text

inductive FileTree where
  | file (content : Bytes)
  | link (target : String)
  | dir (entries : List (String × FileTree))
  deriving Repr

namespace FileTree

def isDir : FileTree → Bool
  | .dir _ => true
  | _ => false

def isFile : FileTree → Bool
  | .file _ => true
  | _ => false

/-- the entry of this name in a directory -/
def child? (name : String) : FileTree → Option FileTree
  | .dir es => es.lookup name
  | _ => none

/-- the node at the end of a list of names, links not followed -/
def at? : FileTree → List String → Option FileTree
  | n, [] => some n
  | n, name :: rest => (n.child? name).bind (·.at? rest)

/-- `f` makes the new entry out of the old one; `none` removes it -/
def setEntry (name : String) (f : Option FileTree → Option FileTree) :
    List (String × FileTree) → List (String × FileTree)
  | [] => ((f none).map fun n => (name, n)).toList
  | (k, n) :: rest =>
    if k = name then ((f (some n)).map fun n => (k, n)).toList ++ rest
    else (k, n) :: setEntry name f rest

/-- changes what stands at the end of a list of names; a directory that is missing on the way
is made when something new goes into it, and nothing changes below a file or a link -/
def alter (f : Option FileTree → Option FileTree) : List String → FileTree → FileTree
  | [], n => n
  | [name], .dir es => .dir (setEntry name f es)
  | name :: rest, .dir es =>
    .dir (setEntry name
      (fun
        | some n => some (alter f rest n)
        | none => (f none).map fun _ => alter f rest (.dir []))
      es)
  | _ :: _, n => n

def insert (n : FileTree) (path : List String) (new : FileTree) : FileTree :=
  n.alter (fun _ => some new) path

def erase (n : FileTree) (path : List String) : FileTree := n.alter (fun _ => none) path

end FileTree

end VersionFloor
