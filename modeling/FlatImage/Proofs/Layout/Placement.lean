import FlatImage.Layout.Plan

/-!
# Where everything goes

The placement of a tree in natural numbers, without a cursor that can refuse and without a number
that can wrap. Where an entry goes is decided by how many blocks the entries before it have, so a
placement is a recursion over the tree that carries one `Spot`. The pass that plans a layout is
compared with it in `FlatImage.Proofs.Layout.Planning`.

Which entry stops that pass is said here as well: `Entry.refusal?` is the check of one entry, and
`Entries.offence?` the first refusal in pre-order.
-/

namespace FlatImage

/-- The next block of either region. -/
structure Spot where
  tables : Nat
  data : Nat

mutual

/-- How many blocks the files of a directory and of everything below it have. -/
def Directory.dataBlocks (blockSize : Nat) : Directory → Nat
  | .mk _ entries => entries.dataBlocks blockSize

def Entries.dataBlocks (blockSize : Nat) : Entries → Nat
  | .nil => 0
  | .cons _ entry rest => entry.dataBlocks blockSize + rest.dataBlocks blockSize

def Entry.dataBlocks (blockSize : Nat) : Entry → Nat
  | .file f => Geometry.blocksFor f.size.toNat blockSize
  | .directory d => d.dataBlocks blockSize

end

/-- A directory's own table is one of the tables of the directory and of what is below it. -/
theorem Directory.own_le_tableBlocks {blockSize : Nat} (d : Directory) :
    Geometry.tableBlocks d.size blockSize ≤ d.tableBlocks blockSize := by
  cases d
  exact Nat.le_add_right ..

namespace Spot

/-- The spot behind an entry and everything below it. -/
def after (s : Spot) (blockSize : Nat) (entry : Entry) : Spot :=
  ⟨s.tables + entry.tableBlocks blockSize, s.data + entry.dataBlocks blockSize⟩

/-- The spot behind several entries and everything below them. -/
def afterAll (s : Spot) (blockSize : Nat) (entries : Entries) : Spot :=
  ⟨s.tables + entries.tableBlocks blockSize, s.data + entries.dataBlocks blockSize⟩

/-- The spot of the first of the entries of a directory, behind the directory's own table. -/
def below (s : Spot) (blockSize : Nat) (entries : Entries) : Spot :=
  ⟨s.tables + Geometry.tableBlocks entries.size blockSize, s.data⟩

@[simp] theorem after_tables (s : Spot) (blockSize : Nat) (entry : Entry) :
    (s.after blockSize entry).tables = s.tables + entry.tableBlocks blockSize := rfl

theorem afterAll_cons (s : Spot) (blockSize : Nat) (name : Bytes) (entry : Entry)
    (rest : Entries) : s.afterAll blockSize (.cons name entry rest)
      = (s.after blockSize entry).afterAll blockSize rest := by
  simp only [afterAll, after, Entries.tableBlocks, Entries.dataBlocks, Nat.add_assoc]

@[simp] theorem below_tables (s : Spot) (blockSize : Nat) (entries : Entries) :
    (s.below blockSize entries).tables
      = s.tables + Geometry.tableBlocks entries.size blockSize := rfl

end Spot

/-- Everything in a directory counts, so there are not fewer entries below it than in it. -/
theorem Entries.size_le_count (entries : Entries) : entries.size ≤ entries.count := by
  match entries with
  | .nil => exact Nat.le_refl _
  | .cons _ entry rest =>
    have one : 1 ≤ entry.count := by
      cases entry with
      | file _ => exact Nat.le_refl _
      | directory _ => exact Nat.le_add_right ..
    have others := rest.size_le_count
    simp only [Entries.size, Entries.count]
    omega

/-! ## Records -/

namespace Entry

def kind : Entry → UInt8
  | .file _ => Record.fileKind
  | .directory _ => Record.directoryKind

/-- The size that a record gives: that of the content, or of all records of the table. -/
def bytes : Entry → Nat
  | .file f => f.size.toNat
  | .directory d => d.size * Geometry.recordSize

/-- The blocks of an entry's own content or table. -/
def blocks (blockSize : Nat) : Entry → Nat
  | .file f => Geometry.blocksFor f.size.toNat blockSize
  | .directory d => Geometry.tableBlocks d.size blockSize

/-- The first block of an entry's own content or table. An empty file has none. -/
def start (s : Spot) : Entry → Nat
  | .file f => if f.size = 0 then 0 else s.data
  | .directory _ => s.tables

/-- The record of an entry at a spot. -/
def record (o : Options) (parent : UInt32) (name : Bytes) (s : Spot) (entry : Entry) :
    Record where
  kind := entry.kind
  nameLength := UInt8.ofNat name.length
  reserved := 0
  size := UInt32.ofNat entry.bytes
  start := UInt32.ofNat (entry.start s)
  count := UInt32.ofNat (entry.blocks o.blockBytes)
  parent := parent
  mtime := Layout.recordedMtime o entry.mtime
  nameField := Record.padName name

end Entry

/-- The records of the entries of one directory. -/
def Entries.records (o : Options) (parent : UInt32) (s : Spot) : Entries → List Record
  | .nil => []
  | .cons name entry rest =>
    entry.record o parent name s :: rest.records o parent (s.after o.blockBytes entry)

@[simp] theorem Entries.length_records (o : Options) (parent : UInt32) (s : Spot)
    (entries : Entries) : (entries.records o parent s).length = entries.size := by
  match entries with
  | .nil => rfl
  | .cons _ _ rest => simp [records, size, length_records o parent _ rest]

/-! ## Tables and files in pre-order -/

mutual

/-- The tables of a directory and of everything below it, when its own is at the spot. -/
def Directory.tables (o : Options) (path : Path) (parent : UInt32) (s : Spot) :
    Directory → List PlannedTable
  | .mk _ entries =>
    ⟨path, UInt32.ofNat s.tables,
        UInt32.ofNat (Geometry.tableBlocks entries.size o.blockBytes),
        entries.records o parent (s.below o.blockBytes entries)⟩
      :: entries.tables o path (UInt32.ofNat s.tables) (s.below o.blockBytes entries)

/-- The tables of everything below a directory whose own starts at block `own`. -/
def Entries.tables (o : Options) (path : Path) (own : UInt32) (s : Spot) :
    Entries → List PlannedTable
  | .nil => []
  | .cons name entry rest =>
    entry.tables o (Path.join path name) own s
      ++ rest.tables o path own (s.after o.blockBytes entry)

def Entry.tables (o : Options) (path : Path) (parent : UInt32) (s : Spot) :
    Entry → List PlannedTable
  | .file _ => []
  | .directory d => d.tables o path parent s

end

mutual

/-- The files of a directory and of everything below it that are not empty, when the first of them
is at block `data`. -/
def Directory.files (blockSize : Nat) (path : Path) (data : Nat) : Directory → List PlannedFile
  | .mk _ entries => entries.files blockSize path data

def Entries.files (blockSize : Nat) (path : Path) (data : Nat) : Entries → List PlannedFile
  | .nil => []
  | .cons name entry rest =>
    entry.files blockSize (Path.join path name) data
      ++ rest.files blockSize path (data + entry.dataBlocks blockSize)

def Entry.files (blockSize : Nat) (path : Path) (data : Nat) : Entry → List PlannedFile
  | .file f =>
    if f.size = 0 then []
    else [⟨path, UInt32.ofNat data,
      UInt32.ofNat (Geometry.blocksFor f.size.toNat blockSize), f.size, f.content⟩]
  | .directory d => d.files blockSize path data

end

namespace Directory

/-- The first block after all tables, when the root's table comes after the superblock. -/
def dataStart (o : Options) (root : Directory) : Nat := 1 + root.tableBlocks o.blockBytes

/-- How many blocks the image of a tree has. -/
def totalBlocks (o : Options) (root : Directory) : Nat :=
  root.dataStart o + root.dataBlocks o.blockBytes

/-- The spot of the root directory. -/
def spot (o : Options) (root : Directory) : Spot := ⟨1, root.dataStart o⟩

/-- The layout of a tree that has one. -/
def layout (o : Options) (root : Directory) : Layout where
  blockSize := o.blockSize
  tables := root.tables o Layout.rootPath 1 (root.spot o)
  files := root.files o.blockBytes Layout.rootPath (root.dataStart o)
  rootTable := 1
  rootEntries := UInt32.ofNat root.size
  metaBlocks := UInt32.ofNat (root.tableBlocks o.blockBytes)
  dataStart := UInt32.ofNat (root.dataStart o)
  totalBlocks := UInt32.ofNat (root.totalBlocks o)
  entryCount := UInt32.ofNat root.count

end Directory

/-! ## The first entry that has no place -/

/-- Why a name has no place in a record. -/
def Name.refusal? (path : Path) (name : Bytes) : Option RunError :=
  match Name.check name with
  | .error e => some (.ofName path e)
  | .ok () => none

namespace Entry

/-- Why what an entry stands for has no place, when `data` blocks come before it. -/
def sizeRefusal? (o : Options) (path : Path) (data : Nat) : Entry → Option RunError
  | .directory d =>
    if UInt32.size ≤ d.size * Geometry.recordSize then
      some (.imageTooLarge path o.maxBlocks.toNat)
    else none
  | .file f =>
    if o.maxFileSize < f.size then
      some (.sourceTooLarge path f.size.toNat o.maxFileSize.toNat)
    else if o.maxBlocks.toNat < data + Geometry.blocksFor f.size.toNat o.blockBytes then
      some (.imageTooLarge path o.maxBlocks.toNat)
    else none

/-- Why an entry has no place, when `counted` entries and `data` blocks come before it: its name,
the number of entries and its size are looked at in this order. -/
def refusal? (o : Options) (path : Path) (name : Bytes) (counted data : Nat)
    (entry : Entry) : Option RunError :=
  (Name.refusal? path name).or
    ((if UInt32.size ≤ counted + 1 then some (.imageTooLarge path o.maxBlocks.toNat) else none).or
      (entry.sizeRefusal? o path data))

end Entry

mutual

/-- The first refusal among everything below a directory, in pre-order. -/
def Directory.offence? (o : Options) (path : Path) (counted data : Nat) :
    Directory → Option RunError
  | .mk _ entries => entries.offence? o path counted data

def Entries.offence? (o : Options) (path : Path) (counted data : Nat) :
    Entries → Option RunError
  | .nil => none
  | .cons name entry rest =>
    (entry.offence? o (Path.join path name) name counted data).or
      (rest.offence? o path (counted + entry.count) (data + entry.dataBlocks o.blockBytes))

/-- The refusal of an entry, or else the first one below it. -/
def Entry.offence? (o : Options) (path : Path) (name : Bytes) (counted data : Nat) :
    Entry → Option RunError
  | .file f => (Entry.file f).refusal? o path name counted data
  | .directory d =>
    ((Entry.directory d).refusal? o path name counted data).or
      (d.offence? o path (counted + 1) data)

end

/-- Nothing is checked for the directory itself, only for what is below it. -/
theorem Directory.offence?_eq (o : Options) (path : Path) (counted data : Nat) (d : Directory) :
    d.offence? o path counted data = d.entries.offence? o path counted data := by
  cases d
  rfl

end FlatImage
