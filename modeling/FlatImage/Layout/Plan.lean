import FlatImage.Fault
import FlatImage.Layout
import FlatImage.Layout.Allocator
import FlatImage.RunError

/-!
# Planning

The plan of a tree is one pass over it in pre-order with two cursors, one for tables and one for
content, and a count of entries. The first entry that cannot be placed ends the pass with an error
that names it.

The table of a directory is reserved before its children are looked at, and its records are known
after them, so a directory's tables are its own followed by those of its children. The number of
table blocks is counted in a pass of its own before, because content starts after the last table.
-/

namespace FlatImage.Layout

structure Cursors where
  tables : Allocator
  data : Allocator
  entries : UInt32

/-- A pass that hands out blocks, and stops at the first entry that has no place. -/
abbrev Planning := StateT Cursors (Except RunError)

namespace Planning

/-- The image would need more blocks than it may have. -/
def tooLarge {α : Type} (o : Options) (path : Path) : Planning α :=
  throw (.imageTooLarge path o.maxBlocks.toNat)

/-- Counts an entry. The superblock has 32 bits for their number. -/
def countEntry (o : Options) (path : Path) : Planning Unit := do
  let c ← get
  if c.entries.toNat + 1 < UInt32.size then set { c with entries := c.entries + 1 }
  else tooLarge o path

def allocateTable (o : Options) (path : Path) (count : Nat) : Planning UInt32 := do
  let c ← get
  let (start, moved) := c.tables.allocate (UInt64.ofNat count)
  set { c with tables := moved }
  match start with
  | some block => return block
  | none => tooLarge o path

def allocateData (o : Options) (path : Path) (count : Nat) : Planning UInt32 := do
  let c ← get
  let (start, moved) := c.data.allocate (UInt64.ofNat count)
  set { c with data := moved }
  match start with
  | some block => return block
  | none => tooLarge o path

end Planning

/-- The modification time that a record holds: that of the options, or else the entry's own, where
a time before the epoch counts as the epoch. -/
def recordedMtime (o : Options) (mtime : Int64) : UInt64 :=
  o.timestamp.getD (UInt64.ofNat mtime.toInt.toNat)

/-- The record of an entry without its place. -/
def entryRecord (o : Options) (path : Path) (name : Bytes) (kind : UInt8) (mtime : Int64)
    (parentTable : UInt32) : Planning Record := do
  match Record.named name kind with
  | .error e => throw (RunError.ofName path e)
  | .ok record =>
    return { record with parent := parentTable, mtime := recordedMtime o mtime }

/-- What the entries of a directory come to: their records, and the tables and files at and below
them, in pre-order. -/
structure Placed where
  records : List Record
  tables : List PlannedTable
  files : List PlannedFile

def Placed.none : Placed := ⟨[], [], []⟩

def Placed.append (a b : Placed) : Placed :=
  ⟨a.records ++ b.records, a.tables ++ b.tables, a.files ++ b.files⟩

/-- Places a file. An empty file has a record and no blocks. -/
def placeFile (o : Options) (path : Path) (record : Record) (file : File) : Planning Placed := do
  if o.maxFileSize < file.size then
    throw (.sourceTooLarge path file.size.toNat o.maxFileSize.toNat)
  let count := Geometry.blocksFor file.size.toNat o.blockBytes
  let start ← if count = 0 then pure 0 else Planning.allocateData o path count
  let placed := { record with
    size := UInt32.ofNat file.size.toNat
    start := start
    count := UInt32.ofNat count }
  let files : List PlannedFile :=
    if count = 0 then [] else [⟨path, start, UInt32.ofNat count, file.size, file.content⟩]
  return ⟨[placed], [], files⟩

mutual

/-- Places everything below a directory whose table is reserved at `start`. The result has the
directory's own table in front. -/
def placeDirectory (o : Options) (path : Path) (start count parentTable : UInt32) :
    Directory → Planning (List PlannedTable × List PlannedFile)
  | .mk _ entries => do
    let placed ← placeEntries o path start parentTable entries
    return (⟨path, start, count, placed.records⟩ :: placed.tables, placed.files)

def placeEntries (o : Options) (path : Path) (table parentTable : UInt32) :
    Entries → Planning Placed
  | .nil => return Placed.none
  | .cons name entry rest => do
    let first ← placeEntry o (Path.join path name) name table parentTable entry
    let others ← placeEntries o path table parentTable rest
    return first.append others

def placeEntry (o : Options) (path : Path) (name : Bytes) (table parentTable : UInt32) :
    Entry → Planning Placed
  | .file file => do
    let record ← entryRecord o path name Record.fileKind file.mtime parentTable
    Planning.countEntry o path
    placeFile o path record file
  | .directory d => do
    let record ← entryRecord o path name Record.directoryKind d.mtime parentTable
    Planning.countEntry o path
    let size := d.size * Geometry.recordSize
    if UInt32.size ≤ size then Planning.tooLarge o path
    let count := Geometry.tableBlocks d.size o.blockBytes
    let start ← Planning.allocateTable o path count
    let (tables, files) ← placeDirectory o path start (UInt32.ofNat count) table d
    let placed := { record with
      size := UInt32.ofNat size
      start := start
      count := UInt32.ofNat count }
    return ⟨[placed], tables, files⟩

end

def rootPath : Path := [Bytes.slash]

def placeRoot (o : Options) (root : Directory) :
    Planning (UInt32 × List PlannedTable × List PlannedFile) := do
  let count := Geometry.tableBlocks root.size o.blockBytes
  let start ← Planning.allocateTable o rootPath count
  let (tables, files) ← placeDirectory o rootPath start (UInt32.ofNat count) start root
  return (start, tables, files)

/-- The layout of the image of a tree. The table cursor has to end where the content starts. -/
def plan (root : Directory) (o : Options) : Except (Fault RunError) Layout := do
  match o.validate with
  | .error e => Fault.fail (.invalidOptions e)
  | .ok () => pure ()
  let metaBlocks := root.tableBlocks o.blockBytes
  let dataStart := 1 + metaBlocks
  if o.maxBlocks.toNat < dataStart then
    Fault.fail (.imageTooLarge rootPath o.maxBlocks.toNat)
  let first := UInt64.ofNat dataStart
  match (placeRoot o root).run ⟨⟨1, first⟩, ⟨first, o.maxBlocks.toUInt64⟩, 0⟩ with
  | .error e => Fault.fail e
  | .ok ((rootTable, tables, files), cursors) =>
    Fault.require (cursors.tables.next == first)
    return {
      blockSize := o.blockSize
      tables := tables
      files := files
      rootTable := rootTable
      rootEntries := UInt32.ofNat root.size
      metaBlocks := UInt32.ofNat metaBlocks
      dataStart := UInt32.ofNat dataStart
      totalBlocks := cursors.data.next.toUInt32
      entryCount := cursors.entries }

end FlatImage.Layout
