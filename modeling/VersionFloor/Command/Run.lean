import VersionFloor.Command.Check
import VersionFloor.Command.Init

/-!
# Commands: a command line on a file tree

A check leaves the tree as it is.
-/

namespace VersionFloor

def Command.run (color : Bool) (disk : Disk) : Command → Outcome × Disk
  | .check options => (options.run color disk, disk)
  | .init output => Init.run disk ⟨output⟩

end VersionFloor
