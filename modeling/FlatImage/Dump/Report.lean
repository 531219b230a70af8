import FlatImage.Dump.Region
import FlatImage.Text.Percentage

/-!
# The report of a dump

A dump lists an image in block order so that two images can be compared line by line: the header,
every region with the path that owns it, the blocks between regions, and how the bytes are used.

One cursor sweeps over the regions. It stands behind the region before, wherever that one ends, and
a region that starts after it leaves a gap while one that starts before it overlaps. What the sweep
finds is a list of `Finding`s, and the text and the statistics are both made from that list. The
gap after the last region is shown and not counted.
-/

namespace FlatImage.Dump

inductive Finding where
  /-- Blocks between two regions, from `start` up to and without `stop`. -/
  | gap (start stop : Nat)
  /-- A region that starts before the one before it ends. -/
  | overlap (block : Nat)
  | region (region : Region)
  /-- Blocks after the last region. -/
  | remainder (start stop : Nat)

/-- How the start of a region compares with the end of the one before. -/
def Finding.before (cursor start : Nat) : List Finding :=
  if cursor < start then [gap cursor start]
  else if start < cursor then [overlap start]
  else []

/-- Sweeps over regions in the order of their starts. -/
def sweep (cursor totalBlocks : Nat) : List Region → List Finding
  | [] => if cursor < totalBlocks then [.remainder cursor totalBlocks] else []
  | r :: rest =>
    Finding.before cursor r.start.toNat ++ .region r :: sweep r.stop totalBlocks rest

/-- Everything between the superblock and the end of an image. -/
def findings (img : Image) (regions : List Region) : List Finding :=
  sweep 1 img.superblock.totalBlocks.toNat regions

/-- What a byte of an image is used for. -/
inductive Usage where
  | directoryTables
  | fileData
  | padding
  | superblock
  | unassigned
  deriving DecidableEq

namespace Usage

/-- All uses in the order of their names. -/
def all : List Usage := [directoryTables, fileData, padding, superblock, unassigned]

def name : Usage → String
  | directoryTables => "directory tables"
  | fileData => "file data"
  | padding => "padding"
  | superblock => "superblock"
  | unassigned => "unassigned"

end Usage

/-- The bytes of a region that its owner uses. -/
def Region.used (r : Region) : Nat :=
  match r.segment with
  | .table records => records.length * Geometry.recordSize
  | .data record => record.size.toNat

def Region.length (blockSize : Nat) (r : Region) : Nat := r.count.toNat * blockSize

/-- The bytes of a region that its owner does not use. -/
def Region.padding (blockSize : Nat) (r : Region) : Nat := r.length blockSize - r.used

def Region.usage (r : Region) : Usage :=
  match r.segment with
  | .table _ => .directoryTables
  | .data _ => .fileData

/-- The bytes that a finding accounts for. -/
def Finding.shares (blockSize : Nat) : Finding → List (Usage × Nat)
  | gap start stop => [(.unassigned, (stop - start) * blockSize)]
  | region r => [(r.usage, r.used), (.padding, r.padding blockSize)]
  | overlap _ | remainder .. => []

/-- The bytes that the superblock's block and the findings account for. -/
def shares (blockSize : Nat) (found : List Finding) : List (Usage × Nat) :=
  (.superblock, blockSize) :: found.flatMap (Finding.shares blockSize)

/-- The sum of the shares of one use, when there are any. -/
def total? (usage : Usage) (shares : List (Usage × Nat)) : Option Nat :=
  match shares.filter fun share => share.1 = usage with
  | [] => none
  | own => some (own.foldr (fun share sum => share.2 + sum) 0)

/-- The sums of all uses that have shares, in the order of their names. -/
def totals (shares : List (Usage × Nat)) : List (Usage × Nat) :=
  Usage.all.filterMap fun usage => (total? usage shares).map (usage, ·)

def lines (ls : List String) : String := String.join (ls.map (· ++ "\n"))

/-- Bytes as a dump shows them: a quoted text, or in hexadecimal when they are not text. -/
def shown (bytes : Bytes) : String :=
  if Utf8.valid bytes then Quoted.ofBytes bytes else Hex.ofBytes bytes

def headerLines (img : Image) : List String :=
  let sb := img.superblock
  [ Hex.padded 8 0 ++ " superblock",
    "    magic: " ++ shown sb.magic.toList,
    s!"    version: {sb.version}",
    s!"    block_size: {img.blockSize}",
    s!"    total_blocks: {sb.totalBlocks}",
    s!"    root_table: {sb.rootTable}",
    s!"    root_entries: {sb.rootEntries}",
    s!"    meta_blocks: {sb.metaBlocks}",
    s!"    data_start: {sb.dataStart}",
    s!"    entry_count: {sb.entryCount}",
    "" ]

/-- The line of the record at `index` of a table. -/
def recordLine (index : Nat) (r : Record) : String :=
  let place := Hex.aligned 4 (index * Geometry.recordSize)
  let kind := if r.isDirectory then "dir " else "file"
  s!"    +{place} {kind} {shown r.name} size {r.size} blocks {r.start}+{r.count}"
    ++ s!" parent {r.parent} mtime {r.mtime}"

def Region.lines (blockSize : Nat) (r : Region) : List String :=
  let place := Hex.padded 8 (r.start.toNat * blockSize)
  let owner := "# Filename " ++ shown r.path
  match r.segment with
  | .table records =>
    let size := s!"({r.count} blocks, {records.length} entries)"
    [owner, s!"{place} directory table {size}"] ++ records.mapIdx recordLine ++ [""]
  | .data record =>
    let size := s!"({r.count} blocks, {record.size} bytes, {r.padding blockSize} padding)"
    [owner, s!"{place} file data {size}", ""]

def Finding.lines (blockSize : Nat) : Finding → List String
  | gap start stop | remainder start stop => [s!"*** Unassigned blocks {start}..{stop}", ""]
  | overlap block => [s!"*** Overlapping regions at block {block}", ""]
  | region r => r.lines blockSize

def usageLines (size : Nat) (shares : List (Usage × Nat)) : List String :=
  s!"Space statistics (total size {size}B):" :: (totals shares).map fun (usage, bytes) =>
    s!"  {usage.name} = {bytes}B, {Percentage.share bytes size}%"

/-- The text of a dump, and why it ends early if it does. -/
structure Report where
  text : String
  failure : Option (Fault DumpError)

/-- Dumps an image. Nothing is written of bytes that are not an image, and only the header of an
image whose regions cannot be listed. -/
def report (bytes : ByteArray) : Report :=
  match Image.ofBytes bytes with
  | .error e => ⟨"", some (e.map .image)⟩
  | .ok img =>
    let header := lines (headerLines img)
    match regions img with
    | .error e => ⟨header, some e⟩
    | .ok regions =>
      let blockSize := img.blockSize.toNat
      let found := findings img regions
      let body := lines (found.flatMap (Finding.lines blockSize))
      let usage := lines (usageLines bytes.size (shares blockSize found))
      ⟨header ++ body ++ usage, none⟩

end FlatImage.Dump
