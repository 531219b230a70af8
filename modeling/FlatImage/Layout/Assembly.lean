import FlatImage.Superblock
import FlatImage.Writer

/-!
# Putting an image together

Block zero is filled with zeros before anything else is written and gets its superblock last. Until
then the destination does not start like an image, so that an image which is only partly written is
not taken for one.
-/

namespace FlatImage

structure Summary where
  blockSize : UInt32
  totalBlocks : UInt32
  metaBlocks : UInt32
  dataBlocks : UInt32
  entryCount : UInt32
  deriving DecidableEq

def Summary.imageLength (s : Summary) : Nat := s.totalBlocks.toNat * s.blockSize.toNat

namespace Layout

def superblockPath : Path := Bytes.ofString "<superblock>"

/-- Fills block zero with zeros and gives the destination its final length. -/
def reserve (l : Layout) : Writing Unit := do
  Writer.putZeros superblockPath 0 l.blockSize.toNat
  Writer.call superblockPath (·.setLength l.imageLength)

/-- The superblock of a layout. A layout that was planned has one. -/
def superblock (l : Layout) : Except RunError Superblock :=
  match Geometry.shiftOf? l.blockSize with
  | none => .error (.invalidOptions (.layoutBlockSize l.blockSize))
  | some shift => .ok {
      magic := Superblock.signature
      version := Superblock.currentVersion
      blockShift := shift
      totalBlocks := l.totalBlocks
      rootTable := l.rootTable
      rootEntries := l.rootEntries
      metaBlocks := l.metaBlocks
      dataStart := l.dataStart
      entryCount := l.entryCount
      reserved := Vector.replicate 30 0 }

/-- What is missing when so much of the layout has been written. -/
def shortfall? (l : Layout) (p : Progress) : Option Shortfall :=
  if p.tables ≠ l.tables.length ∨ p.files ≠ l.files.length then
    some (.counts p.tables l.tables.length p.files l.files.length)
  else if p.endBlock ≠ l.totalBlocks.toNat then some (.endBlock p.endBlock l.totalBlocks.toNat)
  else none

/-- The totals of the layout's image. The content cannot start behind the last block. -/
def summary (l : Layout) : Except (Fault RunError) Summary := do
  Fault.require (l.dataStart ≤ l.totalBlocks)
  return ⟨l.blockSize, l.totalBlocks, l.metaBlocks, l.totalBlocks - l.dataStart, l.entryCount⟩

/-- Checks that everything is written, then writes the superblock and sets the final length. -/
def finish (l : Layout) (p : Progress) : Writing Summary := do
  if let some missing := l.shortfall? p then
    Writer.refuse (.assemblyIncomplete missing)
  let sb ← Writer.lift (l.superblock.mapError .error)
  Writer.put superblockPath 0 (.ofBuffer sb.encode.toBuffer)
  Writer.call superblockPath (·.setLength l.imageLength)
  Writer.call superblockPath (·.flush)
  Writer.lift l.summary

/-- Writes the image of a layout from its first block to its superblock. -/
def assemble (l : Layout) (sources : Sources) : Writing Summary := do
  l.reserve
  l.tables.forM Writer.writeTable
  l.files.forM (Writer.writeFile sources)
  let w ← get
  l.finish w.progress

end Layout

end FlatImage
