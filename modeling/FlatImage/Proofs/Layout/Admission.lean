import FlatImage.Proofs.Layout.Planning
import Mathlib.Algebra.GroupWithZero.Nat

/-!
# Which trees have a layout

A tree has a layout exactly when its options are valid, each of its names, files and directories is
within the limits, and there are not too many entries and not too many blocks. How many blocks an
image has is one sum here: the superblock, the tables of all directories, the contents of all
files. Neither limit has a say in where anything goes, so a layout does not depend on them.
-/

namespace FlatImage

/-! ## Blocks as sums -/

section

variable {blockSize : Nat}

/-- How many blocks the tables of directories have together. -/
def Directory.sumTables (blockSize : Nat) (directories : List (Path × Directory)) : Nat :=
  (directories.map fun place => Geometry.tableBlocks place.2.size blockSize).sum

/-- How many blocks the contents of files have together. -/
def File.sumBlocks (blockSize : Nat) (files : List (Path × File)) : Nat :=
  (files.map fun place => Geometry.blocksFor place.2.size.toNat blockSize).sum

theorem Directory.sumTables_append (front back : List (Path × Directory)) :
    sumTables blockSize (front ++ back) = sumTables blockSize front + sumTables blockSize back := by
  simp only [sumTables, List.map_append, List.sum_append]

theorem File.sumBlocks_append (front back : List (Path × File)) :
    sumBlocks blockSize (front ++ back) = sumBlocks blockSize front + sumBlocks blockSize back := by
  simp only [sumBlocks, List.map_append, List.sum_append]

mutual

theorem Directory.sumTables_directories (path : Path) (d : Directory) :
    Directory.sumTables blockSize (d.directories path) = d.tableBlocks blockSize := by
  cases d with
  | mk mtime entries =>
    have below := entries.sumTables_directories path
    simp only [Directory.sumTables] at below
    simp only [Directory.sumTables, Directory.directories, List.map_cons, List.sum_cons, below,
      Directory.tableBlocks]
    rfl

theorem Entries.sumTables_directories (path : Path) (entries : Entries) :
    Directory.sumTables blockSize (entries.directories path) = entries.tableBlocks blockSize := by
  cases entries with
  | nil => rfl
  | cons name entry rest =>
    rw [Entries.directories, Directory.sumTables_append, entry.sumTables_directories,
      rest.sumTables_directories, Entries.tableBlocks]

theorem Entry.sumTables_directories (path : Path) (entry : Entry) :
    Directory.sumTables blockSize (entry.directories path) = entry.tableBlocks blockSize := by
  cases entry with
  | file f => rfl
  | directory d => exact d.sumTables_directories path

end

mutual

theorem Directory.sumBlocks_allFiles (path : Path) (d : Directory) :
    File.sumBlocks blockSize (d.allFiles path) = d.dataBlocks blockSize := by
  cases d with
  | mk mtime entries => exact entries.sumBlocks_allFiles path

theorem Entries.sumBlocks_allFiles (path : Path) (entries : Entries) :
    File.sumBlocks blockSize (entries.allFiles path) = entries.dataBlocks blockSize := by
  cases entries with
  | nil => rfl
  | cons name entry rest =>
    rw [Entries.allFiles, File.sumBlocks_append, entry.sumBlocks_allFiles,
      rest.sumBlocks_allFiles, Entries.dataBlocks]

theorem Entry.sumBlocks_allFiles (path : Path) (entry : Entry) :
    File.sumBlocks blockSize (entry.allFiles path) = entry.dataBlocks blockSize := by
  cases entry with
  | file f => exact Nat.add_zero _
  | directory d => exact d.sumBlocks_allFiles path

end

end

/-! ## A layout does not depend on the limits -/

section

variable {o o' : Options}

theorem Entries.records_congr (size : o'.blockSize = o.blockSize)
    (time : o'.timestamp = o.timestamp) (parent : UInt32) (s : Spot) (entries : Entries) :
    entries.records o' parent s = entries.records o parent s := by
  match entries with
  | .nil => rfl
  | .cons name entry rest =>
    simp only [records, Entry.record, Layout.recordedMtime, Options.blockBytes, size, time,
      rest.records_congr size time]

mutual

theorem Directory.tables_congr (size : o'.blockSize = o.blockSize)
    (time : o'.timestamp = o.timestamp) (path : Path) (parent : UInt32) (s : Spot)
    (d : Directory) : d.tables o' path parent s = d.tables o path parent s := by
  cases d with
  | mk mtime entries =>
    simp only [Directory.tables, Options.blockBytes, size, entries.records_congr size time,
      entries.tables_congr size time]

theorem Entries.tables_congr (size : o'.blockSize = o.blockSize)
    (time : o'.timestamp = o.timestamp) (path : Path) (own : UInt32) (s : Spot)
    (entries : Entries) : entries.tables o' path own s = entries.tables o path own s := by
  cases entries with
  | nil => rfl
  | cons name entry rest =>
    simp only [Entries.tables, Options.blockBytes, size, entry.tables_congr size time,
      rest.tables_congr size time]

theorem Entry.tables_congr (size : o'.blockSize = o.blockSize)
    (time : o'.timestamp = o.timestamp) (path : Path) (parent : UInt32) (s : Spot)
    (entry : Entry) : entry.tables o' path parent s = entry.tables o path parent s := by
  cases entry with
  | file f => rfl
  | directory d => exact d.tables_congr size time path parent s

end

/-- Only the block size and the timestamp decide what a layout is. -/
theorem Directory.layout_congr (size : o'.blockSize = o.blockSize)
    (time : o'.timestamp = o.timestamp) (root : Directory) : root.layout o' = root.layout o := by
  simp only [layout, spot, totalBlocks, dataStart, Options.blockBytes, size,
    root.tables_congr size time]

end

/-! ## Admission -/

/-- A tree that is within all limits of a run. -/
structure Directory.Admissible (o : Options) (root : Directory) : Prop where
  blockSize : o.blockSize = 512 ∨ o.blockSize = 1024 ∨ o.blockSize = 2048 ∨ o.blockSize = 4096
  maxFileSize : o.maxFileSize.toNat < UInt32.size
  maxBlocks : 2 ≤ o.maxBlocks.toNat
  names : ∀ name ∈ root.names, Name.check name = .ok ()
  files : ∀ place ∈ root.allFiles Layout.rootPath, place.2.size ≤ o.maxFileSize
  /-- The root has no record that holds the size of its table. -/
  directories : ∀ place ∈ root.entries.directories Layout.rootPath,
    place.2.size * Geometry.recordSize < UInt32.size
  entries : root.count < UInt32.size
  blocks : 1 + sumTables o.blockBytes (root.directories Layout.rootPath)
    + File.sumBlocks o.blockBytes (root.allFiles Layout.rootPath) ≤ o.maxBlocks.toNat

namespace Directory

variable {o : Options} {root : Directory}

/-- The blocks of an image are the superblock's, those of all tables and those of all files. -/
theorem totalBlocks_eq_sum (o : Options) (root : Directory) :
    root.totalBlocks o = 1 + sumTables o.blockBytes (root.directories Layout.rootPath)
      + File.sumBlocks o.blockBytes (root.allFiles Layout.rootPath) := by
  rw [totalBlocks, dataStart, sumTables_directories, sumBlocks_allFiles]

/-- The trees within all limits are those that can be placed. -/
theorem placeable_iff_admissible : root.Placeable o ↔ root.Admissible o := by
  constructor
  · intro h
    obtain ⟨_, size, blocks⟩ := Options.validate_eq_ok_iff.1 h.valid
    have all := h.admits
    exact {
      blockSize := Options.blockSize_of_validate h.valid
      maxFileSize := Nat.lt_of_le_of_lt (UInt64.le_iff_toNat_le.1 size) (by decide)
      maxBlocks := UInt32.le_iff_toNat_le.1 blocks
      names := all.names
      files := all.files
      directories := all.directories
      entries := all.counted
      blocks := (totalBlocks_eq_sum o root) ▸ all.data }
  · intro h
    have total := h.blocks
    rw [← totalBlocks_eq_sum] at total
    have room : root.dataStart o ≤ o.maxBlocks.toNat := Nat.le_trans (Nat.le_add_right ..) total
    refine ⟨Options.validate_eq_ok_iff.2 ⟨?_, ?_, ?_⟩, room, ?_⟩
    · exact Geometry.isSome_shiftOf?_iff.2 h.blockSize
    · exact UInt64.le_iff_toNat_le.2 (Nat.le_of_lt_succ h.maxFileSize)
    · exact UInt32.le_iff_toNat_le.2 h.maxBlocks
    · refine (root.offence?_eq_none_iff (by decide) room).2 ?_
      rw [Nat.zero_add]
      exact ⟨h.names, h.files, h.directories, h.entries, total⟩

end Directory

/-- A tree has a layout exactly when it is within all limits of the run, and the limits of two runs
that both have a layout for it make no difference. -/
theorem Layout.plan_iff_admissible (root : Directory) (o : Options) :
    ((∃ l, plan root o = .ok l) ↔ root.Admissible o)
      ∧ ∀ (maxBlocks : UInt32) (maxFileSize : UInt64) (l l' : Layout), plan root o = .ok l →
        plan root { o with maxBlocks, maxFileSize } = .ok l' → l = l' := by
  constructor
  · simp only [Directory.plan_eq_ok_iff, Directory.placeable_iff_admissible, exists_and_left,
      exists_eq, and_true]
  · intro maxBlocks maxFileSize l l' planned planned'
    obtain ⟨_, rfl⟩ := Directory.plan_eq_ok_iff.1 planned
    obtain ⟨_, rfl⟩ := Directory.plan_eq_ok_iff.1 planned'
    refine Directory.layout_congr ?_ ?_ root <;> rfl

/-- The small tree has four blocks, and the same layout where four blocks are the limit. -/
theorem Layout.plan_iff_admissible_sample : ∃ l, plan .sample {} = .ok l
    ∧ plan .sample { maxBlocks := 4, maxFileSize := 3 } = .ok l := by
  have wide : Directory.sample.Admissible {} :=
    Directory.placeable_iff_admissible.1 Directory.sample_placeable
  have tight : Directory.sample.Placeable { maxBlocks := 4, maxFileSize := 3 } :=
    ⟨rfl, by decide, by decide⟩
  obtain ⟨l, planned⟩ := (plan_iff_admissible .sample {}).1.2 wide
  obtain ⟨l', planned'⟩ := (plan_iff_admissible .sample { maxBlocks := 4, maxFileSize := 3 }).1.2
    (Directory.placeable_iff_admissible.1 tight)
  obtain rfl := (plan_iff_admissible .sample {}).2 4 3 l l' planned planned'
  exact ⟨l, planned, planned'⟩

end FlatImage
