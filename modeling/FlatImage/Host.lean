import FlatImage.Host.Node
import FlatImage.IoError

/-!
# The host

The host is the file system that a run reads from and writes to, the directory that relative paths
start from, and the time. It is a value: a run is a function from one host to the next, so what a
run leaves behind when it fails is there to be stated.

Only the time of a run as a whole is kept. Adding an entry to a directory, or removing one, stamps
the directory with it.

No resource of the host runs out by itself: there is room for every byte that is written, and
however many files and directories are open at once, another one can be opened. Where a host is to
refuse a call that could have been made, as a full one does, the run is given its refusals.
-/

namespace FlatImage

/-- A file system, a current directory, and the time. -/
structure Host where
  root : Host.Node
  current : Host.Location
  now : Int64

namespace Host

def at? (h : Host) (loc : Location) : Option Node := h.root.at? loc

def update (h : Host) (loc : Location) (f : Node → Node) : Host :=
  { h with root := h.root.update f loc }

def entry? (h : Host) (dir : Location) (name : Bytes) : Option Node := h.at? (dir ++ [name])

def put (h : Host) (dir : Location) (name : Bytes) (node : Node) : Host :=
  h.update dir (Node.changeEntries h.now (·.set name node))

/-- Gives a directory an entry of a name that no other one has. -/
def add (h : Host) (dir : Location) (name : Bytes) (node : Node) : Host :=
  h.update dir (Node.changeEntries h.now (.cons name node))

/-- Removes a name from a directory, and all that is below it. -/
def remove (h : Host) (dir : Location) (name : Bytes) : Host :=
  h.update dir (Node.changeEntries h.now (·.erase name))

/-- Sets the modification time of a node. -/
def stamp (h : Host) (loc : Location) (mtime : Int64) : Host :=
  h.update loc (Node.setMtime mtime)

/-- A regular file with some content, written now. -/
def freshFile (h : Host) (content : Blob) : Node := .file ⟨content, h.now, false⟩

def freshDirectory (h : Host) : Node := .directory h.now .nil

@[simp] theorem at?_nil (h : Host) : h.at? [] = some h.root := by
  simp [at?, Node.at?]

@[simp] theorem now_update (h : Host) (loc : Location) (f : Node → Node) :
    (h.update loc f).now = h.now := rfl

theorem at?_update_self (h : Host) (loc : Location) (f : Node → Node) :
    (h.update loc f).at? loc = (h.at? loc).map f := Node.at?_update_self f loc h.root

theorem at?_update_of_not_prefix (h : Host) {loc other : Location} (f : Node → Node)
    (above : ¬ loc <+: other) (below : ¬ other <+: loc) :
    (h.update loc f).at? other = h.at? other :=
  Node.at?_update_of_not_prefix f h.root above below

end Host

end FlatImage
