import FlatImage.Host.Resolution
import FlatImage.RunError
import FlatImage.Tree

/-!
# Reading a source tree

A walk takes over the regular files and directories below a directory of the host. Names and sizes
are checked on the way, so that a tree which is walked can be planned with the same options. What
an image cannot hold, links among it, is skipped and counted, and the count stays when the walk
fails. No link is followed below the root.

Contents are not read: a file of the tree names the host file that will be read when its image is
written.
-/

namespace FlatImage.Host

/-- A walk. It counts what it skips. -/
abbrev Walking := ExceptT RunError (StateM Nat)

namespace Walking

def skip : Walking Unit := modify (· + 1)

/-- Ends a walk unless the name at the end of a path can stand in a record. -/
def checkName (path : Path) (name : Bytes) : Walking Unit :=
  match Name.check name with
  | .ok () => pure ()
  | .error e => throw (RunError.ofName path e)

/-- The file of a source tree that stands for a host file. -/
def file (o : Options) (path : Path) (f : File) : Walking FlatImage.File :=
  if o.maxFileSize.toNat < f.content.size then
    throw (.sourceTooLarge path f.content.size o.maxFileSize.toNat)
  else pure { mtime := f.mtime, size := UInt64.ofNat f.content.size, content := .host path }

end Walking

mutual

/-- Adds an entry of the host to a directory of the tree, unless it is skipped. -/
def Node.addTo (o : Options) (path : Path) (name : Bytes) (d : FlatImage.Directory) :
    Node → Walking FlatImage.Directory
  | .directory mtime entries => do
    Walking.checkName path name
    let sub ← entries.addTo o path (.mk mtime .nil)
    return d.insert name (.directory sub)
  | .file f => do
    Walking.checkName path name
    let file ← Walking.file o path f
    return d.insert name (.file file)
  | .link _ | .special .. => do
    Walking.skip
    return d

def Nodes.addTo (o : Options) (path : Path) (d : FlatImage.Directory) :
    Nodes → Walking FlatImage.Directory
  | .nil => return d
  | .cons name node rest => do
    let d ← node.addTo o (Path.join path name) name d
    rest.addTo o path d

end

/-- Reads the directory at `path` and everything below it. Messages and contents use `shown` in
place of the path, and `last` says whether a link at the end of the path is followed. -/
def readDirectory (h : Host) (path shown : Path) (last : Bool) (o : Options) :
    Except RunError FlatImage.Directory × Nat :=
  match h.openDirectory path last with
  | .error e => (.error (.unreadableSource shown (.os e)), 0)
  | .ok loc =>
    match h.at? loc with
    | some (.directory mtime entries) => (entries.addTo o shown (.mk mtime .nil)).run.run 0
    | _ => (.error (.unreadableSource shown (.os .notDirectory)), 0)

/-- Reads the tree at a path. The path itself may lead through a link to a directory. -/
def readTree (h : Host) (path : Path) (o : Options) : Except RunError FlatImage.Directory :=
  (h.readDirectory path path true o).1

end FlatImage.Host
