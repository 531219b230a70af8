import FlatImage.Buffer
import FlatImage.Fault
import FlatImage.Image.Error

/-!
# Reading an image

An image is opened once, which checks its header, and then asked for blocks, tables and files.
Nothing that the bytes say is trusted: every answer is checked against the regions of the image,
tables against the one before `dataStart` and content against the one from there on.

The sums of block numbers stay in 32 bits where the format has them. The one that decides whether
an image is opened, one more than the number of table blocks, must not leave them.
-/

namespace FlatImage

/-- An opened image. -/
structure Image where
  bytes : ByteArray
  superblock : Superblock
  blockSize : UInt32

/-- A result of reading an image. -/
abbrev Reading := Except (Fault ImageError)

namespace Image

/-- The bytes of `count` blocks from `start` on. -/
def blocks (img : Image) (start count : UInt32) : Reading ByteArray :=
  let stop := start.toNat + count.toNat
  if UInt32.size ≤ stop ∨ img.superblock.totalBlocks.toNat < stop then
    Fault.fail (.outOfBounds start count)
  else
    let size := img.blockSize.toNat
    Fault.demand (Buffer.slice? img.bytes (start.toNat * size) (stop * size))

/-- The records of a table. A table lies between the superblock and the content. -/
def table (img : Image) (start entries : UInt32) : Reading (List Record) := do
  let size := img.blockSize.toNat
  let needed := Geometry.tableBlocks entries.toNat size
  Fault.require (needed < UInt32.size)
  let count := UInt32.ofNat needed
  let stop := min (start.toNat + count.toNat) (UInt32.size - 1)
  if start = 0 ∨ img.superblock.dataStart.toNat < stop
      ∨ Geometry.tableCapacity count.toNat size < entries.toNat then
    Fault.fail (.outOfBounds start count)
  let found ← img.blocks start count
  let used ← Fault.demand (Buffer.slice? found 0 (entries.toNat * Geometry.recordSize))
  return Record.decodeMany entries.toNat (Bytes.ofBuffer used)

def root (img : Image) : Reading (List Record) :=
  img.table img.superblock.rootTable img.superblock.rootEntries

def ofBytes (bytes : ByteArray) : Reading Image := do
  let start := Bytes.ofBuffer (bytes.extract 0 Geometry.recordSize)
  let sb ← match Superblock.ofStart? start with
    | some sb => .ok sb
    | none => Fault.fail .tooShort
  if sb.magic ≠ Superblock.signature then Fault.fail (.badMagic sb.magic)
  if sb.version ≠ Superblock.currentVersion then Fault.fail (.unsupportedVersion sb.version)
  let blockSize ← match sb.blockSize? with
    | some size => .ok size
    | none => Fault.fail (.invalidBlockShift sb.blockShift)
  let expected := sb.totalBlocks.toNat * blockSize.toNat
  if bytes.size ≠ expected then Fault.fail (.sizeMismatch expected bytes.size)
  let img : Image := ⟨bytes, sb, blockSize⟩
  Fault.require (sb.metaBlocks.toNat + 1 < UInt32.size)
  if sb.dataStart ≠ 1 + sb.metaBlocks ∨ sb.totalBlocks < sb.dataStart then
    Fault.fail (.outOfBounds 1 sb.metaBlocks)
  let _ ← img.root
  return img

/-- The name of a record, which has to be text, of a record whose kind is known. -/
def name (record : Record) : Reading Bytes :=
  if !Utf8.valid record.name then Fault.fail (.corruptRecord (Utf8.lossy record.name))
  else if !record.isDirectory && !record.isFile then
    Fault.fail (.unknownKind (Utf8.lossy record.name) record.kind)
  else .ok record.name

/-- A record does not say what its kind has to say. -/
def corrupt {α : Type} (record : Record) : Reading α :=
  Fault.fail (.corruptRecord (Utf8.lossy record.name))

/-- The records of the directory that a record describes. -/
def directory (img : Image) (record : Record) : Reading (List Record) := do
  let _ ← name record
  if !record.isDirectory ∨ record.size.toNat % Geometry.recordSize ≠ 0 then corrupt record
  let entries := record.size.toNat / Geometry.recordSize
  if record.count.toNat ≠ Geometry.tableBlocks entries img.blockSize.toNat then corrupt record
  img.table record.start (UInt32.ofNat entries)

/-- The content of the file that a record describes, without the zeros after it. -/
def fileData (img : Image) (record : Record) : Reading ByteArray := do
  let _ ← name record
  if !record.isFile
      ∨ record.count.toNat ≠ Geometry.blocksFor record.size.toNat img.blockSize.toNat then
    corrupt record
  if record.size = 0 then return ByteArray.empty
  if record.start < img.superblock.dataStart then
    Fault.fail (.outOfBounds record.start record.count)
  let found ← img.blocks record.start record.count
  Fault.demand (Buffer.slice? found 0 record.size.toNat)

/-- What follows a file's content in its last block. -/
def fileTail (img : Image) (record : Record) : Reading ByteArray := do
  let data ← img.fileData record
  if data.size = 0 then return ByteArray.empty
  let found ← img.blocks record.start record.count
  Fault.demand (Buffer.slice? found data.size found.size)

end Image

end FlatImage
