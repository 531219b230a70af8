import FlatImage.Layout.Assembly
import FlatImage.Proofs.Layout.Placement
import FlatImage.Proofs.Patch

/-!
# The bytes of an image

The image of a tree as one concatenation: the superblock, the tables of all directories in
pre-order, the contents of all files in the same order, each filled up with zeros to the end of its
last block. Nothing is written at an offset here, and no earlier byte is looked at again; what the
writer leaves in a destination is compared with this in `FlatImage.Proofs.Compilation`.
-/

namespace FlatImage

/-! ## Contents -/

namespace Content

def source (sources : Sources) : Content → Except IoError Source
  | .inline bytes => .ok { content := .ofBuffer bytes }
  | .host path => sources path

/-- The bytes of a content, as far as they can be read. -/
def bytes (sources : Sources) (c : Content) : Bytes :=
  match c.source sources with
  | .ok source => source.content.toList
  | .error _ => []

/-- A content can be read to its end, and has so many bytes. -/
def Holds (sources : Sources) (c : Content) (size : Nat) : Prop :=
  ∃ source, c.source sources = .ok source ∧ source.failure = none ∧ source.content.size = size

theorem Holds.length_bytes {sources : Sources} {c : Content} {size : Nat}
    (h : c.Holds sources size) : (c.bytes sources).length = size := by
  obtain ⟨source, found, _, length⟩ := h
  simp only [bytes, found, Blob.length_toList, length]

/-- An inline content holds as many bytes as it has. -/
theorem holds_inline {sources : Sources} {bytes : ByteArray} {size : Nat} :
    (Content.inline bytes).Holds sources size ↔ bytes.size = size := by
  simp [Holds, source]

end Content

/-! ## Tables and files of a layout -/

/-- The blocks of a table. -/
def PlannedTable.image (blockSize : Nat) (t : PlannedTable) : Bytes :=
  Bytes.padTo (t.count.toNat * blockSize) (Record.encodeMany t.records)

/-- The blocks of a file. -/
def PlannedFile.image (blockSize : Nat) (sources : Sources) (f : PlannedFile) : Bytes :=
  Bytes.padTo (f.count.toNat * blockSize) (f.content.bytes sources)

/-! ## The encoding of a tree -/

mutual

/-- The tables of a directory and of everything below it, when its own is at the spot. -/
def Directory.tableBytes (o : Options) (parent : UInt32) (s : Spot) : Directory → Bytes
  | .mk _ entries =>
    Bytes.padTo (Geometry.tableBlocks entries.size o.blockBytes * o.blockBytes)
        (Record.encodeMany (entries.records o parent (s.below o.blockBytes entries)))
      ++ entries.tableBytes o (UInt32.ofNat s.tables) (s.below o.blockBytes entries)

/-- The tables of everything below a directory whose own starts at block `own`. -/
def Entries.tableBytes (o : Options) (own : UInt32) (s : Spot) : Entries → Bytes
  | .nil => []
  | .cons _ entry rest =>
    entry.tableBytes o own s ++ rest.tableBytes o own (s.after o.blockBytes entry)

def Entry.tableBytes (o : Options) (own : UInt32) (s : Spot) : Entry → Bytes
  | .file _ => []
  | .directory d => d.tableBytes o own s

end

mutual

/-- The contents of the files in a directory and below it that are not empty. -/
def Directory.dataBytes (blockSize : Nat) (sources : Sources) : Directory → Bytes
  | .mk _ entries => entries.dataBytes blockSize sources

def Entries.dataBytes (blockSize : Nat) (sources : Sources) : Entries → Bytes
  | .nil => []
  | .cons _ entry rest => entry.dataBytes blockSize sources ++ rest.dataBytes blockSize sources

def Entry.dataBytes (blockSize : Nat) (sources : Sources) : Entry → Bytes
  | .file f =>
    if f.size = 0 then []
    else Bytes.padTo (Geometry.blocksFor f.size.toNat blockSize * blockSize)
      (f.content.bytes sources)
  | .directory d => d.dataBytes blockSize sources

end

namespace Directory

def superblock (o : Options) (root : Directory) : Superblock where
  magic := Superblock.signature
  version := Superblock.currentVersion
  blockShift := (Geometry.shiftOf? o.blockSize).getD 0
  totalBlocks := UInt32.ofNat (root.totalBlocks o)
  rootTable := 1
  rootEntries := UInt32.ofNat root.size
  metaBlocks := UInt32.ofNat (root.tableBlocks o.blockBytes)
  dataStart := UInt32.ofNat (root.dataStart o)
  entryCount := UInt32.ofNat root.count
  reserved := Vector.replicate 30 0

/-- The image of a tree. -/
def encode (o : Options) (sources : Sources) (root : Directory) : Bytes :=
  Bytes.padTo o.blockBytes (root.superblock o).encode ++ root.tableBytes o 1 (root.spot o)
    ++ root.dataBytes o.blockBytes sources

end Directory

/-! ## The encoding is that of the layout -/

section

variable {o : Options}

mutual

theorem Directory.flatMap_tables (path : Path) (parent : UInt32) (d : Directory) {s : Spot}
    (room : d.tableBlocks o.blockBytes < UInt32.size) :
    (d.tables o path parent s).flatMap (·.image o.blockBytes) = d.tableBytes o parent s := by
  cases d with
  | mk mtime entries =>
    simp only [Directory.tableBlocks] at room
    have count : (UInt32.ofNat (Geometry.tableBlocks entries.size o.blockBytes)).toNat
        = Geometry.tableBlocks entries.size o.blockBytes := UInt32.toNat_ofNat_of_lt' (by omega)
    simp only [Directory.tables, Directory.tableBytes, List.flatMap_cons]
    rw [entries.flatMap_tables path _ (by omega), PlannedTable.image, count]

theorem Entries.flatMap_tables (path : Path) (own : UInt32) (entries : Entries) {s : Spot}
    (room : entries.tableBlocks o.blockBytes < UInt32.size) :
    (entries.tables o path own s).flatMap (·.image o.blockBytes) = entries.tableBytes o own s := by
  cases entries with
  | nil => rfl
  | cons name entry rest =>
    simp only [Entries.tableBlocks] at room
    simp only [Entries.tables, Entries.tableBytes, List.flatMap_append]
    rw [entry.flatMap_tables _ own (by omega), rest.flatMap_tables path own (by omega)]

theorem Entry.flatMap_tables (path : Path) (own : UInt32) (entry : Entry) {s : Spot}
    (room : entry.tableBlocks o.blockBytes < UInt32.size) :
    (entry.tables o path own s).flatMap (·.image o.blockBytes) = entry.tableBytes o own s := by
  cases entry with
  | file f => rfl
  | directory d => exact d.flatMap_tables path own room

end

mutual

theorem Directory.flatMap_files {blockSize : Nat} (sources : Sources) (path : Path)
    (d : Directory) {data : Nat} (room : d.dataBlocks blockSize < UInt32.size) :
    (d.files blockSize path data).flatMap (·.image blockSize sources)
      = d.dataBytes blockSize sources := by
  cases d with
  | mk mtime entries => exact entries.flatMap_files sources path room

theorem Entries.flatMap_files {blockSize : Nat} (sources : Sources) (path : Path)
    (entries : Entries) {data : Nat} (room : entries.dataBlocks blockSize < UInt32.size) :
    (entries.files blockSize path data).flatMap (·.image blockSize sources)
      = entries.dataBytes blockSize sources := by
  cases entries with
  | nil => rfl
  | cons name entry rest =>
    simp only [Entries.dataBlocks] at room
    simp only [Entries.files, Entries.dataBytes, List.flatMap_append]
    rw [entry.flatMap_files sources _ (by omega), rest.flatMap_files sources path (by omega)]

theorem Entry.flatMap_files {blockSize : Nat} (sources : Sources) (path : Path) (entry : Entry)
    {data : Nat} (room : entry.dataBlocks blockSize < UInt32.size) :
    (entry.files blockSize path data).flatMap (·.image blockSize sources)
      = entry.dataBytes blockSize sources := by
  cases entry with
  | file f =>
    have count : (UInt32.ofNat (Geometry.blocksFor f.size.toNat blockSize)).toNat
        = Geometry.blocksFor f.size.toNat blockSize := UInt32.toNat_ofNat_of_lt' room
    simp only [Entry.files, Entry.dataBytes]
    by_cases empty : f.size = 0
    · rw [if_pos empty, if_pos empty]
      rfl
    · rw [if_neg empty, if_neg empty, List.flatMap_singleton, PlannedFile.image, count]
  | directory d => exact d.flatMap_files sources path room

end

end

end FlatImage
