import FlatImage.Proofs.Layout.Planning
import Mathlib.Data.List.Forall2

/-!
# The geometry of a layout

The tables of a layout are those of all directories in pre-order and follow each other without a
gap from the first block behind the superblock; the files that are not empty follow in the same
order from the end of the last table. Everything is measured in natural numbers here: that the
32-bit fields of a layout and of its records hold exactly these numbers is part of the statement.
-/

namespace FlatImage

open Layout

/-! ## Extents -/

/-- Consecutive blocks. -/
structure Extent where
  start : Nat
  count : Nat

namespace Extent

/-- Extents that follow each other without a gap from one block to another. -/
def Tiles : (first : Nat) → List Extent → (last : Nat) → Prop
  | first, [], last => first = last
  | first, e :: rest, last => e.start = first ∧ Tiles (first + e.count) rest last

theorem Tiles.append {first middle last : Nat} {front back : List Extent}
    (hfront : Tiles first front middle) (hback : Tiles middle back last) :
    Tiles first (front ++ back) last := by
  induction front generalizing first with
  | nil =>
    obtain rfl : first = middle := hfront
    exact hback
  | cons e rest ih => exact ⟨hfront.1, ih hfront.2⟩

theorem Tiles.le {first last : Nat} {extents : List Extent} (h : Tiles first extents last) :
    first ≤ last := by
  induction extents generalizing first with
  | nil => exact Nat.le_of_eq h
  | cons e rest ih => exact Nat.le_trans (Nat.le_add_right ..) (ih h.2)

/-- Each extent is between the two blocks. -/
theorem Tiles.within {first last : Nat} {extents : List Extent} (h : Tiles first extents last)
    {e : Extent} (mem : e ∈ extents) : first ≤ e.start ∧ e.start + e.count ≤ last := by
  induction extents generalizing first with
  | nil => cases mem
  | cons next rest ih =>
    obtain ⟨start, tiles⟩ := h
    obtain rfl | later := List.mem_cons.1 mem
    · rw [start]
      exact ⟨Nat.le_refl _, tiles.le⟩
    · obtain ⟨behind, inside⟩ := ih tiles later
      exact ⟨Nat.le_trans (Nat.le_add_right ..) behind, inside⟩

/-- Each extent ends before the later ones start. -/
theorem Tiles.pairwise {first last : Nat} {extents : List Extent} (h : Tiles first extents last) :
    extents.Pairwise fun e e' => e.start + e.count ≤ e'.start := by
  induction extents generalizing first with
  | nil => exact .nil
  | cons e rest ih =>
    obtain ⟨start, tiles⟩ := h
    refine List.pairwise_cons.2 ⟨fun e' mem => ?_, ih tiles⟩
    rw [start]
    exact (tiles.within mem).1

/-- Extents that follow each other from the same block are the same when they are as long. -/
theorem Tiles.eq_of_counts {first last last' : Nat} {extents extents' : List Extent}
    (h : Tiles first extents last) (h' : Tiles first extents' last')
    (same : extents.map Extent.count = extents'.map Extent.count) : extents = extents' := by
  induction extents generalizing first extents' with
  | nil => exact (List.map_eq_nil_iff.1 same.symm).symm
  | cons e rest ih =>
    obtain ⟨e', rest', rfl, own, others⟩ := List.map_eq_cons_iff.1 same.symm
    obtain ⟨start, behind⟩ := h
    obtain ⟨start', behind'⟩ := h'
    rw [own] at behind'
    have first : e = e' := by
      cases e
      cases e'
      exact (Extent.mk.injEq ..).mpr ⟨start.trans start'.symm, own.symm⟩
    rw [first, ih behind behind' others.symm]

end Extent

/-- The blocks of a table. -/
def PlannedTable.extent (t : PlannedTable) : Extent := ⟨t.start.toNat, t.count.toNat⟩

/-- The blocks of a file's content. -/
def PlannedFile.extent (f : PlannedFile) : Extent := ⟨f.start.toNat, f.count.toNat⟩

/-! ## What a layout says about a tree -/

/-- A record whose fields hold the size and the number of blocks of an entry. -/
structure Record.Measures (blockSize : Nat) (r : Record) (entry : Bytes × Entry) : Prop where
  size : r.size.toNat = entry.2.bytes
  count : r.count.toNat = entry.2.blocks blockSize

/-- A planned table is the table of a directory. -/
structure PlannedTable.TableOf (blockSize : Nat) (t : PlannedTable) (place : Path × Directory) :
    Prop where
  path : t.path = place.1
  count : t.count.toNat = Geometry.tableBlocks place.2.size blockSize
  records : List.Forall₂ (Record.Measures blockSize) t.records place.2.entries.toList

/-- A planned file is the content of a file. -/
structure PlannedFile.ContentOf (blockSize : Nat) (f : PlannedFile) (place : Path × File) :
    Prop where
  path : f.path = place.1
  count : f.count.toNat = Geometry.blocksFor place.2.size.toNat blockSize
  size : f.size = place.2.size
  content : f.content = place.2.content

/-- How many records tables have together. -/
def PlannedTable.recordCount : List PlannedTable → Nat
  | [] => 0
  | t :: rest => t.records.length + recordCount rest

/-- A layout tiles the image of a tree: tables from block one, content behind them. -/
structure Layout.Tiling (o : Options) (root : Directory) (l : Layout) : Prop where
  blockSize : l.blockSize = o.blockSize
  rootTable : l.rootTable.toNat = 1
  rootEntries : l.rootEntries.toNat = root.size
  tables : List.Forall₂ (PlannedTable.TableOf o.blockBytes) l.tables
    (root.directories Layout.rootPath)
  tablesTile : Extent.Tiles 1 (l.tables.map PlannedTable.extent) l.dataStart.toNat
  metaBlocks : l.metaBlocks.toNat = root.tableBlocks o.blockBytes
  dataStart : l.dataStart.toNat = 1 + l.metaBlocks.toNat
  files : List.Forall₂ (PlannedFile.ContentOf o.blockBytes) l.files
    ((root.allFiles Layout.rootPath).filter fun place => place.2.size ≠ 0)
  filesTile : Extent.Tiles l.dataStart.toNat (l.files.map PlannedFile.extent) l.totalBlocks.toNat
  totalBlocks : l.totalBlocks.toNat = l.dataStart.toNat + root.dataBlocks o.blockBytes
  totalBlocks_le : l.totalBlocks.toNat ≤ o.maxBlocks.toNat
  entryCount : l.entryCount.toNat = root.count
  recordCount : PlannedTable.recordCount l.tables = root.count

/-! ## The placement tiles -/

section

variable {o : Options}

mutual

theorem Directory.tiles_tables (path : Path) (parent : UInt32) (d : Directory) {s : Spot}
    (room : s.tables + d.tableBlocks o.blockBytes < UInt32.size) :
    Extent.Tiles s.tables ((d.tables o path parent s).map PlannedTable.extent)
      (s.tables + d.tableBlocks o.blockBytes) := by
  cases d with
  | mk mtime entries =>
    simp only [Directory.tableBlocks, ← Nat.add_assoc] at room ⊢
    have start : (UInt32.ofNat s.tables).toNat = s.tables :=
      UInt32.toNat_ofNat_of_lt' (by omega)
    have count : (UInt32.ofNat (Geometry.tableBlocks entries.size o.blockBytes)).toNat
        = Geometry.tableBlocks entries.size o.blockBytes :=
      UInt32.toNat_ofNat_of_lt' (by omega)
    refine ⟨start, ?_⟩
    simp only [PlannedTable.extent, count]
    exact entries.tiles_tables path _ (s := s.below o.blockBytes entries) room

theorem Entries.tiles_tables (path : Path) (own : UInt32) (entries : Entries) {s : Spot}
    (room : s.tables + entries.tableBlocks o.blockBytes < UInt32.size) :
    Extent.Tiles s.tables ((entries.tables o path own s).map PlannedTable.extent)
      (s.tables + entries.tableBlocks o.blockBytes) := by
  cases entries with
  | nil => exact rfl
  | cons name entry rest =>
    simp only [Entries.tableBlocks, Entries.tables, List.map_append, ← Nat.add_assoc] at room ⊢
    have first := entry.tiles_tables (Path.join path name) own (s := s) (by omega)
    have others := rest.tiles_tables path own (s := s.after o.blockBytes entry) room
    exact first.append others

theorem Entry.tiles_tables (path : Path) (parent : UInt32) (entry : Entry) {s : Spot}
    (room : s.tables + entry.tableBlocks o.blockBytes < UInt32.size) :
    Extent.Tiles s.tables ((entry.tables o path parent s).map PlannedTable.extent)
      (s.tables + entry.tableBlocks o.blockBytes) := by
  cases entry with
  | file f => exact rfl
  | directory d => exact d.tiles_tables path parent room

end

mutual

theorem Directory.tiles_files {blockSize : Nat} (path : Path)
    (d : Directory) (data : Nat)
    (room : data + d.dataBlocks blockSize < UInt32.size) :
    Extent.Tiles data ((d.files blockSize path data).map PlannedFile.extent)
      (data + d.dataBlocks blockSize) := by
  cases d with
  | mk mtime entries => exact entries.tiles_files path data room

theorem Entries.tiles_files {blockSize : Nat} (path : Path)
    (entries : Entries) (data : Nat)
    (room : data + entries.dataBlocks blockSize < UInt32.size) :
    Extent.Tiles data ((entries.files blockSize path data).map PlannedFile.extent)
      (data + entries.dataBlocks blockSize) := by
  cases entries with
  | nil => exact rfl
  | cons name entry rest =>
    simp only [Entries.dataBlocks, Entries.files, List.map_append, ← Nat.add_assoc] at room ⊢
    have start : data + entry.dataBlocks blockSize < UInt32.size := by omega
    have first := entry.tiles_files (Path.join path name) data start
    exact first.append (rest.tiles_files path _ room)

theorem Entry.tiles_files {blockSize : Nat} (path : Path) (entry : Entry)
    (data : Nat) (room : data + entry.dataBlocks blockSize < UInt32.size) :
    Extent.Tiles data ((entry.files blockSize path data).map PlannedFile.extent)
      (data + entry.dataBlocks blockSize) := by
  cases entry with
  | file f =>
    simp only [Entry.dataBlocks, Entry.files] at room ⊢
    by_cases empty : f.size = 0
    · rw [if_pos empty, empty]
      simp [Extent.Tiles]
    · rw [if_neg empty]
      have start : (UInt32.ofNat data).toNat = data := UInt32.toNat_ofNat_of_lt' (by omega)
      have count : (UInt32.ofNat (Geometry.blocksFor f.size.toNat blockSize)).toNat
          = Geometry.blocksFor f.size.toNat blockSize := UInt32.toNat_ofNat_of_lt' (by omega)
      exact ⟨start, by rw [PlannedFile.extent, count]; exact rfl⟩
  | directory d => exact d.tiles_files path data room

end

/-! ## The tables and files are those of the tree -/

/-- The record of an entry with a place has room for its size and its number of blocks. -/
theorem Entry.measures (valid : o.validate = .ok ()) {path : Path} {data : Nat} {entry : Entry}
    (none : entry.sizeRefusal? o path data = none) (parent : UInt32) (name : Bytes) (s : Spot) :
    (entry.record o parent name s).Measures o.blockBytes (name, entry) := by
  have bytes : entry.bytes < UInt32.size := by
    cases entry with
    | file f =>
      have small := UInt64.le_iff_toNat_le.1 (Entry.sizeRefusal?_file_eq_none_iff.1 none).1
      have most := UInt64.le_iff_toNat_le.1 (Options.validate_eq_ok_iff.1 valid).2.1
      exact Nat.lt_of_le_of_lt (Nat.le_trans small most) (by decide)
    | directory d => exact Entry.sizeRefusal?_directory_eq_none_iff.1 none
  have blocks : entry.blocks o.blockBytes < UInt32.size := by
    cases entry with
    | file f => exact Nat.lt_of_le_of_lt (Geometry.blocksFor_le ..) bytes
    | directory d =>
      have few : Geometry.blocksFor (d.size * Geometry.recordSize) o.blockBytes < UInt32.size :=
        Nat.lt_of_le_of_lt (Geometry.blocksFor_le ..) bytes
      exact Nat.max_lt.2 ⟨by decide, few⟩
  exact ⟨UInt32.toNat_ofNat_of_lt' bytes, UInt32.toNat_ofNat_of_lt' blocks⟩

theorem Entries.measures (valid : o.validate = .ok ()) {path : Path} {counted data : Nat}
    (entries : Entries) (none : entries.offence? o path counted data = none) (parent : UInt32)
    (s : Spot) :
    List.Forall₂ (Record.Measures o.blockBytes) (entries.records o parent s) entries.toList := by
  match entries with
  | .nil => exact .nil
  | .cons name entry rest =>
    simp only [Entries.offence?, Option.or_eq_none_iff] at none
    have own := Entry.refusal?_eq_none_iff.1 (Entry.refusal?_of_offence? none.1)
    exact .cons (Entry.measures valid own.2.2 parent name s) (rest.measures valid none.2 parent _)

mutual

theorem Directory.tables_tableOf (valid : o.validate = .ok ()) {path : Path}
    {counted data : Nat} (d : Directory) (none : d.offence? o path counted data = none)
    (parent : UInt32) {s : Spot} (room : s.tables + d.tableBlocks o.blockBytes < UInt32.size) :
    List.Forall₂ (PlannedTable.TableOf o.blockBytes) (d.tables o path parent s)
      (d.directories path) := by
  cases d with
  | mk mtime entries =>
    simp only [Directory.tableBlocks, ← Nat.add_assoc] at room
    have count : (UInt32.ofNat (Geometry.tableBlocks entries.size o.blockBytes)).toNat
        = Geometry.tableBlocks entries.size o.blockBytes :=
      UInt32.toNat_ofNat_of_lt' (by omega)
    refine .cons ⟨rfl, count, entries.measures valid none parent _⟩ ?_
    exact entries.tables_tableOf valid none _ (s := s.below o.blockBytes entries) room

theorem Entries.tables_tableOf (valid : o.validate = .ok ()) {path : Path}
    {counted data : Nat} (entries : Entries)
    (none : entries.offence? o path counted data = none) (own : UInt32) {s : Spot}
    (room : s.tables + entries.tableBlocks o.blockBytes < UInt32.size) :
    List.Forall₂ (PlannedTable.TableOf o.blockBytes) (entries.tables o path own s)
      (entries.directories path) := by
  cases entries with
  | nil => exact .nil
  | cons name entry rest =>
    simp only [Entries.offence?, Option.or_eq_none_iff] at none
    simp only [Entries.tableBlocks, ← Nat.add_assoc] at room
    have first := entry.tables_tableOf valid none.1 own (s := s) (by omega)
    have others := rest.tables_tableOf valid none.2 own (s := s.after o.blockBytes entry) room
    exact List.rel_append first others

theorem Entry.tables_tableOf (valid : o.validate = .ok ()) {path : Path} {name : Bytes}
    {counted data : Nat} (entry : Entry)
    (none : entry.offence? o path name counted data = none) (own : UInt32) {s : Spot}
    (room : s.tables + entry.tableBlocks o.blockBytes < UInt32.size) :
    List.Forall₂ (PlannedTable.TableOf o.blockBytes) (entry.tables o path own s)
      (entry.directories path) := by
  cases entry with
  | file f => exact .nil
  | directory d =>
    simp only [Entry.offence?, Option.or_eq_none_iff] at none
    exact d.tables_tableOf valid none.2 own room

end

mutual

theorem Directory.files_contentOf {blockSize : Nat} (path : Path) (d : Directory) (data : Nat)
    (room : data + d.dataBlocks blockSize < UInt32.size) :
    List.Forall₂ (PlannedFile.ContentOf blockSize) (d.files blockSize path data)
      ((d.allFiles path).filter fun place => place.2.size ≠ 0) := by
  cases d with
  | mk mtime entries => exact entries.files_contentOf path data room

theorem Entries.files_contentOf {blockSize : Nat} (path : Path) (entries : Entries)
    (data : Nat) (room : data + entries.dataBlocks blockSize < UInt32.size) :
    List.Forall₂ (PlannedFile.ContentOf blockSize) (entries.files blockSize path data)
      ((entries.allFiles path).filter fun place => place.2.size ≠ 0) := by
  cases entries with
  | nil => exact .nil
  | cons name entry rest =>
    simp only [Entries.dataBlocks, ← Nat.add_assoc] at room
    simp only [Entries.files, Entries.allFiles, List.filter_append]
    have start : data + entry.dataBlocks blockSize < UInt32.size := by omega
    have first := entry.files_contentOf (Path.join path name) data start
    exact List.rel_append first (rest.files_contentOf path _ room)

theorem Entry.files_contentOf {blockSize : Nat} (path : Path) (entry : Entry) (data : Nat)
    (room : data + entry.dataBlocks blockSize < UInt32.size) :
    List.Forall₂ (PlannedFile.ContentOf blockSize) (entry.files blockSize path data)
      ((entry.allFiles path).filter fun place => place.2.size ≠ 0) := by
  cases entry with
  | file f =>
    simp only [Entry.dataBlocks] at room
    by_cases empty : f.size = 0
    · simp [Entry.files, Entry.allFiles, empty]
    · have count : (UInt32.ofNat (Geometry.blocksFor f.size.toNat blockSize)).toNat
          = Geometry.blocksFor f.size.toNat blockSize := UInt32.toNat_ofNat_of_lt' (by omega)
      simp only [Entry.files, Entry.allFiles, List.filter_cons, List.filter_nil,
        ne_eq, empty, not_false_eq_true, decide_true, if_true]
      exact .cons ⟨rfl, count, rfl, rfl⟩ .nil
  | directory d => exact d.files_contentOf path data room

end

/-! ## Every entry has one record -/

theorem PlannedTable.recordCount_append (front back : List PlannedTable) :
    recordCount (front ++ back) = recordCount front + recordCount back := by
  induction front with
  | nil => simp [recordCount]
  | cons t rest ih => simp only [List.cons_append, recordCount, ih, Nat.add_assoc]

mutual

theorem Directory.recordCount_tables (path : Path) (parent : UInt32) (s : Spot)
    (d : Directory) : PlannedTable.recordCount (d.tables o path parent s) = d.count := by
  cases d with
  | mk mtime entries =>
    have below := entries.recordCount_tables path (UInt32.ofNat s.tables)
      (s.below o.blockBytes entries)
    simp only [Directory.tables, PlannedTable.recordCount, Entries.length_records,
      Directory.count]
    omega

theorem Entries.recordCount_tables (path : Path) (own : UInt32) (s : Spot)
    (entries : Entries) :
    entries.size + PlannedTable.recordCount (entries.tables o path own s) = entries.count := by
  cases entries with
  | nil => rfl
  | cons name entry rest =>
    have first := entry.recordCount_tables (Path.join path name) own s
    have others := rest.recordCount_tables path own (s.after o.blockBytes entry)
    simp only [Entries.tables, PlannedTable.recordCount_append, Entries.size, Entries.count]
    omega

theorem Entry.recordCount_tables (path : Path) (parent : UInt32) (s : Spot) (entry : Entry) :
    1 + PlannedTable.recordCount (entry.tables o path parent s) = entry.count := by
  cases entry with
  | file f => rfl
  | directory d => exact congrArg (1 + ·) (d.recordCount_tables path parent s)

end

/-- The layout of a placeable tree tiles its image. -/
theorem Directory.Placeable.tiling {root : Directory} (h : root.Placeable o) :
    (root.layout o).Tiling o root := by
  have whole : root.dataStart o + root.dataBlocks o.blockBytes < UInt32.size := h.totalBlocks_lt
  have dataStart : (UInt32.ofNat (root.dataStart o)).toNat = root.dataStart o :=
    UInt32.toNat_ofNat_of_lt' h.dataStart_lt
  have totalBlocks : (UInt32.ofNat (root.totalBlocks o)).toNat = root.totalBlocks o :=
    UInt32.toNat_ofNat_of_lt' h.totalBlocks_lt
  have metaBlocks : (UInt32.ofNat (root.tableBlocks o.blockBytes)).toNat
      = root.tableBlocks o.blockBytes :=
    UInt32.toNat_ofNat_of_lt' (Nat.lt_of_le_of_lt (Nat.le_add_left ..) h.dataStart_lt)
  have size : root.size < UInt32.size := by
    cases root
    exact Nat.lt_of_le_of_lt (Entries.size_le_count _) h.count_lt
  exact {
    blockSize := rfl
    rootTable := rfl
    rootEntries := UInt32.toNat_ofNat_of_lt' size
    tables := root.tables_tableOf h.valid h.placed 1 h.dataStart_lt
    tablesTile := by
      simp only [layout, dataStart]
      exact root.tiles_tables rootPath 1 (s := root.spot o) h.dataStart_lt
    metaBlocks := metaBlocks
    dataStart := by
      simp only [layout, dataStart, metaBlocks]
      rfl
    files := root.files_contentOf rootPath _ whole
    filesTile := by
      simp only [layout, dataStart, totalBlocks]
      exact root.tiles_files rootPath _ whole
    totalBlocks := by
      simp only [layout, dataStart, totalBlocks]
      rfl
    totalBlocks_le := by
      simp only [layout, totalBlocks]
      exact h.totalBlocks_le
    entryCount := UInt32.toNat_ofNat_of_lt' h.count_lt
    recordCount := root.recordCount_tables rootPath 1 _ }

/-- Whatever a plan succeeds on, its tables and files tile the image without a gap, and no number
is cut off on the way into its field. -/
theorem Layout.tiling_of_plan {root : Directory} {l : Layout} (h : plan root o = .ok l) :
    l.Tiling o root := by
  obtain ⟨placeable, rfl⟩ := Directory.plan_eq_ok_iff.1 h
  exact placeable.tiling

/-- The layout of a tree with one directory and one file below its root. -/
theorem Layout.tiling_sample : plan .sample {} = .ok (Directory.sample.layout {})
    ∧ (Directory.sample.layout {}).Tiling {} .sample := by
  have planned : plan .sample {} = .ok (Directory.sample.layout {}) :=
    Directory.plan_eq_ok_iff.2 ⟨Directory.sample_placeable, rfl⟩
  exact ⟨planned, tiling_of_plan planned⟩

end

end FlatImage
