import FlatImage.Fault
import FlatImage.Layout
import FlatImage.Output
import FlatImage.Reader
import FlatImage.RunError

/-!
# Writing tables and files

A writer puts planned tables and files into a destination, each into its own blocks and followed by
zeros up to the end of them, and counts what it has written. Nothing is counted that was not
written to its end.

The content of a file is copied in pieces of a fixed size, whatever the pieces are in which its
source hands it out. A source that has fewer bytes than planned, or more, is refused: it changed
since the plan was made.
-/

namespace FlatImage

/-- How much of a layout has been written. -/
structure Progress where
  tables : Nat
  files : Nat
  /-- One past the last block written. -/
  endBlock : Nat
  deriving DecidableEq

namespace Progress

/-- Nothing written but the superblock's place. -/
def start : Progress := ⟨0, 0, 1⟩

/-- The blocks from `start` on count as written. -/
def reach (p : Progress) (start count : UInt32) : Progress :=
  { p with endBlock := max p.endBlock (start.toNat + count.toNat) }

end Progress

/-- Where the bytes of host files come from while an image is written. -/
abbrev Sources := Path → Except IoError Source

/-- A destination, the size of its blocks, and the progress made in it. -/
structure Writer where
  blockSize : Nat
  output : Output
  progress : Progress

/-- A computation on a writer. What it did to the writer stays when it fails. -/
abbrev Writing := ExceptT (Fault RunError) (StateM Writer)

namespace Writer

/-- The size of the pieces that content is copied in. It is a multiple of every block size. -/
def transferSize : Nat := 65536

def refuse {α : Type} (e : RunError) : Writing α := throw (.error e)

def require (b : Bool) : Writing Unit := if b then pure () else throw .abort

/-- A result that does not depend on the writer. -/
def lift {α : Type} : Except (Fault RunError) α → Writing α
  | .ok a => pure a
  | .error e => throw e

/-- Makes a call on the destination. A refusal is a failure to write what `path` names. -/
def call (path : Path) (f : Output → Except IoError Unit × Output) : Writing Unit := do
  let result ← modifyGet fun w =>
    let (result, output) := f w.output
    (result, { w with output := output })
  match result with
  | .ok () => return ()
  | .error e => refuse (.writeFailure path e)

def put (path : Path) (offset : Nat) (bytes : Blob) : Writing Unit :=
  call path (·.write offset bytes)

/-- Puts zeros at an offset. There are zeros for one block of the largest size. -/
def putZeros (path : Path) (offset length : Nat) : Writing Unit := do
  require (length ≤ Geometry.largestBlock.toNat)
  put path offset (.hole length)

/-- Puts zeros from `offset` up to `stop`, block by block. -/
def fillUp (path : Path) (blockSize offset stop : Nat) : Writing Unit := do
  if _ : 0 < blockSize ∧ offset < stop then
    let next := (offset / blockSize + 1) * blockSize
    putZeros path offset (next - offset)
    fillUp path blockSize next stop
termination_by stop - offset
decreasing_by
  have split := Nat.div_add_mod offset blockSize
  have small := Nat.mod_lt offset (show 0 < blockSize by omega)
  rw [Nat.add_mul, Nat.mul_comm]
  omega

/-- Puts a table into its blocks. Its records have to fit. -/
def writeTable (table : PlannedTable) : Writing Unit := do
  let w ← get
  let range := Geometry.byteRange table.start.toNat table.count.toNat w.blockSize
  let bytes := (Record.encodeMany table.records).toBuffer
  require (bytes.size ≤ range.stop - range.start)
  put table.path range.start (.ofBuffer bytes)
  fillUp table.path w.blockSize (range.start + bytes.size) range.stop
  modify fun w =>
    { w with progress := { w.progress.reach table.start table.count with
        tables := w.progress.tables + 1 } }

/-- The failure of a file whose length is not the planned one. -/
def changedSize (path : Path) : RunError :=
  .unreadableSource path (.described "file changed size while compiling")

/-- Reads `want` bytes of what `path` names, fewer only at the end. -/
def collect (path : Path) (reader : Reader) (want : Nat) : Writing (Blob × Reader) :=
  match reader.collect want with
  | .ok found => return found
  | .error e => refuse (.unreadableSource path e)

/-- Copies `remaining` bytes to an offset, and gives the reader after them. -/
def copy (path : Path) (reader : Reader) (offset remaining : Nat) : Writing Reader := do
  if _ : remaining = 0 then return reader
  else
    let want := min remaining transferSize
    let (bytes, rest) ← collect path reader want
    if bytes.size < want then refuse (changedSize path)
    put path offset bytes
    copy path rest (offset + want) (remaining - want)
termination_by remaining
decreasing_by
  simp only [transferSize]
  omega

/-- Copies a content of exactly the planned size, and fills up its last block with zeros. -/
def copyWhole (reader : Reader) (file : PlannedFile) : Writing Unit := do
  let w ← get
  let range := Geometry.byteRange file.start.toNat file.count.toNat w.blockSize
  let rest ← copy file.path reader range.start file.size.toNat
  let (extra, _) ← collect file.path rest 1
  if extra.size ≠ 0 then refuse (changedSize file.path)
  let written := range.start + file.size.toNat
  require (written ≤ range.stop)
  if written < range.stop then putZeros file.path written (range.stop - written)

/-- Puts a file's content into its blocks. -/
def writeFile (sources : Sources) (file : PlannedFile) : Writing Unit := do
  match file.content with
  | .inline bytes =>
    if bytes.size ≠ file.size.toNat then refuse (changedSize file.path)
    copyWhole { content := .ofBuffer bytes } file
  | .host path =>
    match sources path with
    | .error e => refuse (.unreadableSource file.path e)
    | .ok source => copyWhole { source with } file
  modify fun w =>
    { w with progress := { w.progress.reach file.start file.count with
        files := w.progress.files + 1 } }

def new (output : Output) (blockSize : Nat) : Writer := ⟨blockSize, output, Progress.start⟩

end Writer

end FlatImage
