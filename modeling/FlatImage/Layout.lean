import FlatImage.Record
import FlatImage.Tree

/-!
# Layouts

A layout says where every table and every file of an image goes. The tables come first, right
after the superblock, and the content of the files follows. Both regions are filled in pre-order,
children in the order of their names, so a tree has one layout.
-/

namespace FlatImage

/-- A directory's table and its place. -/
structure PlannedTable where
  path : Path
  start : UInt32
  count : UInt32
  records : List Record

/-- A file's content and its place. -/
structure PlannedFile where
  path : Path
  start : UInt32
  count : UInt32
  size : UInt64
  content : Content

/-- The places of everything in an image. -/
structure Layout where
  blockSize : UInt32
  /-- In ascending block order, the root's first. -/
  tables : List PlannedTable
  /-- The files that are not empty, in ascending block order. -/
  files : List PlannedFile
  rootTable : UInt32
  rootEntries : UInt32
  metaBlocks : UInt32
  dataStart : UInt32
  totalBlocks : UInt32
  entryCount : UInt32

/-- The length of the image in bytes. -/
def Layout.imageLength (l : Layout) : Nat := l.totalBlocks.toNat * l.blockSize.toNat

mutual

/-- How many blocks the tables of a directory and of everything below it have. -/
def Directory.tableBlocks (blockSize : Nat) : Directory → Nat
  | .mk _ entries => Geometry.tableBlocks entries.size blockSize + entries.tableBlocks blockSize

def Entries.tableBlocks (blockSize : Nat) : Entries → Nat
  | .nil => 0
  | .cons _ entry rest => entry.tableBlocks blockSize + rest.tableBlocks blockSize

def Entry.tableBlocks (blockSize : Nat) : Entry → Nat
  | .file _ => 0
  | .directory d => d.tableBlocks blockSize

end

end FlatImage
