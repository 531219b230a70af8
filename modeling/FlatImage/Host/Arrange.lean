import FlatImage.Host.Resolution

/-!
# Arranging a host

Hosts are put together node by node. A placement makes the directories above it that are missing,
and because adding entries stamps directories, a whole arrangement ends by setting the modification
time of every directory that it went through.
-/

namespace FlatImage.Host

inductive Item where
  | file (content : Blob)
  | directory
  | link (target : Path)
  | special (kind : Special)

/-- Something to be placed at a path, with the modification time that it is to have. -/
structure Placement where
  path : Path
  item : Item
  mtime? : Option Int64 := none

/-- A host with an empty current directory below its root. -/
def scratch (now : Int64) : Host :=
  let name := Bytes.ofString "scratch"
  ⟨.directory now (.cons name (.directory now .nil) .nil), [name], now⟩

/-- The proper and improper starts of a path that end where a segment ends, the shortest first. -/
def starts (path : Path) : List Path :=
  let segments := Path.segments path
  (List.range segments.length).filterMap fun i =>
    let start := Path.ofSegments (segments.take (i + 1))
    if start = [] then none else some start

def makeDirectories (h : Host) (path : Path) : Host :=
  (starts path).foldl (fun h start =>
    match h.resolve start true with
    | .ok (.free dir name) => h.add dir name h.freshDirectory
    | _ => h) h

/-- Puts a node where a path leads. A node that is there is replaced unless it is a directory. -/
def putAt (h : Host) (path : Path) (last : Bool) (node : Node) : Host :=
  match h.resolve path last with
  | .ok (.free dir name) => h.add dir name node
  | .ok (.found _ (.directory ..)) | .error _ => h
  | .ok (.found loc _) => h.update loc fun _ => node

/-- Writes the file that a path leads to. A file that is there stays the same file with another
content, and its lock with it. -/
def writeAt (h : Host) (path : Path) (content : Blob) (mtime : Int64) : Host :=
  match h.lookup path true with
  | .ok (loc, .file f) => h.update loc fun _ => .file { f with content, mtime }
  | _ => h.putAt path true (.file { content, mtime })

def Placement.directories (p : Placement) : List Path :=
  match p.item with
  | .directory => starts p.path
  | _ => (starts p.path).dropLast

/-- Places an item, which has the modification time `default` if it is given none. -/
def place (default : Int64) (h : Host) (p : Placement) : Host :=
  let h := p.directories.foldl makeDirectories h
  let mtime := p.mtime?.getD default
  match p.item with
  | .directory => h
  | .file content => h.writeAt p.path content mtime
  | .link target => h.putAt p.path false (.link target)
  | .special kind => h.putAt p.path false (.special kind mtime)

def touch (h : Host) (path : Path) (mtime : Int64) : Host :=
  match h.lookup path false with
  | .ok (loc, _) => h.stamp loc mtime
  | .error _ => h

/-- The modification time that placements give to the directory at a path. The last one given
counts. -/
def givenMtime (placements : List Placement) (default : Int64) (path : Path) : Int64 :=
  let given := placements.filterMap fun p =>
    match p.item with
    | .directory => if Path.components p.path = Path.components path then p.mtime? else none
    | _ => none
  given.getLast?.getD default

/-- Places items, then sets the modification times of the directories that they went through and of
the current directory. -/
def arrange (h : Host) (placements : List Placement) (default : Int64) : Host :=
  let placed := placements.foldl (place default) h
  let passed := (Name.current :: placements.flatMap Placement.directories).eraseDups
  passed.foldl (fun h path =>
    match h.lookup path true with
    | .ok (loc, _) => h.stamp loc (givenMtime placements default path)
    | .error _ => h) placed

/-- Removes what a path leads to with all that is below it, and then sets the modification time of
the directory that it was in. -/
def removeAll (h : Host) (path : Path) (mtime : Int64) : Host :=
  match h.lookup path false with
  | .ok (loc, _) =>
    match loc.getLast? with
    | some name => (h.remove (above loc) name).stamp (above loc) mtime
    | none => h
  | .error _ => h

def write (h : Host) (path : Path) (content : Blob) : Host := h.writeAt path content h.now

/-- Says whether someone else holds the lock of a file. -/
def setLocked (h : Host) (path : Path) (locked : Bool) : Host :=
  match h.lookup path true with
  | .ok (loc, _) => h.update loc fun
    | .file f => .file { f with locked := locked }
    | node => node
  | .error _ => h

/-- Takes the lock of a file for someone else, and makes the file if it is missing. -/
def lock (h : Host) (path : Path) : Host :=
  let h := match h.resolve path true with
    | .ok (.free dir name) => h.add dir name (h.freshFile (.hole 0))
    | _ => h
  h.setLocked path true

def unlock (h : Host) (path : Path) : Host := h.setLocked path false

end FlatImage.Host
