import FlatImage.Proofs.Dump.Claims
import FlatImage.Proofs.Dump.Lines
import FlatImage.Proofs.Dump.Sweep
import FlatImage.Proofs.Settled

/-!
# The dump of a compiled image

The records of a compiled image lead to the tables and contents of its layout, each under the path
of the entry that it belongs to. Layouts tile their images, so these are all claims, and they come
in the order of the layout: the dump of a compiled image lists all tables and then all contents,
marks nothing, and accounts for every byte.
-/

namespace FlatImage

open Dump

section

variable {o : Options} {sources : Sources} {img : Image}

/-! ## The regions of a tree -/

namespace Dump

/-- A region is the table of the directory at a path. -/
structure Region.TableAt (blockSize : Nat) (r : Region) (place : Path × Directory) : Prop where
  path : r.path = place.1
  count : r.count.toNat = Geometry.tableBlocks place.2.size blockSize
  segment : ∃ records, r.segment = .table records ∧ records.length = place.2.size

/-- A region is the content of the file at a path. -/
structure Region.ContentAt (blockSize : Nat) (r : Region) (place : Path × File) : Prop where
  path : r.path = place.1
  count : r.count.toNat = Geometry.blocksFor place.2.size.toNat blockSize
  segment : ∃ record, r.segment = .data record ∧ record.size.toNat = place.2.size.toNat

/-- Regions are those of a tree: a table for each directory and, behind all tables, the content of
each file that is not empty. They follow each other from block one to the end of the image. -/
structure RegionsOf (o : Options) (root : Directory) (tables contents : List Region) : Prop where
  tableAt : List.Forall₂ (Region.TableAt o.blockBytes) tables (root.directories rootPath)
  contentAt : List.Forall₂ (Region.ContentAt o.blockBytes) contents
    ((root.allFiles rootPath).filter fun place => place.2.size ≠ 0)
  tiles : Extent.Tiles 1 ((tables ++ contents).map Region.extent) (root.totalBlocks o)

namespace Region

variable {blockSize : Nat} {r : Region}

theorem TableAt.count_pos {place : Path × Directory} (h : r.TableAt blockSize place) :
    0 < r.count.toNat := by
  rw [h.count]
  exact Geometry.one_le_tableBlocks ..

theorem TableAt.used_le {place : Path × Directory} (h : r.TableAt blockSize place)
    (pos : 0 < blockSize) : r.used ≤ r.length blockSize := by
  obtain ⟨records, holds, length⟩ := h.segment
  simp only [used, holds, Region.length, length, h.count]
  exact Geometry.le_tableBlocks_mul pos

theorem ContentAt.count_pos {place : Path × File} (h : r.ContentAt blockSize place)
    (pos : 0 < blockSize) (filled : place.2.size ≠ 0) : 0 < r.count.toNat := by
  rw [h.count]
  refine (Geometry.blocksFor_pos pos).2 (Nat.pos_of_ne_zero fun zero => filled ?_)
  exact UInt64.toNat_inj.1 zero

theorem ContentAt.used_le {place : Path × File} (h : r.ContentAt blockSize place)
    (pos : 0 < blockSize) : r.used ≤ r.length blockSize := by
  obtain ⟨record, holds, size⟩ := h.segment
  simp only [used, holds, Region.length, size, h.count]
  exact Geometry.le_blocksFor_mul pos

end Region

/-! ## The lines of a region -/

/-- What is said of the table of a directory in front of its records: the path, the place, and how
many blocks and entries it has. -/
def tableLabel (blockSize start : Nat) (place : Path × Directory) : List String :=
  let blocks := Geometry.tableBlocks place.2.size blockSize
  let size := s!"({blocks} blocks, {place.2.size} entries)"
  ["# Filename " ++ shown place.1,
    Hex.padded 8 (start * blockSize) ++ " directory table " ++ size]

/-- What is said of the content of a file: the path, the place, how many blocks and bytes it has,
and how many bytes of its last block are left over. -/
def contentLabel (blockSize start : Nat) (place : Path × File) : List String :=
  let bytes := place.2.size.toNat
  let blocks := Geometry.blocksFor bytes blockSize
  let size := s!"({blocks} blocks, {bytes} bytes, {blocks * blockSize - bytes} padding)"
  ["# Filename " ++ shown place.1,
    Hex.padded 8 (start * blockSize) ++ " file data " ++ size]

/-- A table is shown with its label, and has a line for each of its entries. -/
theorem Region.TableAt.lines_eq {blockSize : Nat} {r : Region} {place : Path × Directory}
    (h : r.TableAt blockSize place) : ∃ records : List Record, records.length = place.2.size
      ∧ r.lines blockSize
        = tableLabel blockSize r.start.toNat place ++ records.mapIdx recordLine ++ [""] := by
  obtain ⟨records, holds, length⟩ := h.segment
  have blocks : toString r.count = toString (Geometry.tableBlocks place.2.size blockSize) :=
    congrArg toString h.count
  refine ⟨records, length, ?_⟩
  simp only [Region.lines, holds, h.path, tableLabel, length, blocks]
  rfl

/-- A content is shown with its label. -/
theorem Region.ContentAt.lines_eq {blockSize : Nat} {r : Region} {place : Path × File}
    (h : r.ContentAt blockSize place) :
    r.lines blockSize = contentLabel blockSize r.start.toNat place ++ [""] := by
  obtain ⟨record, holds, size⟩ := h.segment
  have blocks : toString r.count
      = toString (Geometry.blocksFor place.2.size.toNat blockSize) := congrArg toString h.count
  have bytes : toString record.size = toString place.2.size.toNat := congrArg toString size
  have padding : r.padding blockSize = Geometry.blocksFor place.2.size.toNat blockSize * blockSize
      - place.2.size.toNat := by
    simp only [Region.padding, Region.length, Region.used, holds, h.count, size]
  simp only [Region.lines, holds, h.path, contentLabel, blocks, bytes, padding]
  rfl

namespace RegionsOf

variable {root : Directory} {tables contents : List Region}

/-- What holds of each table and of each content that is not empty holds of each region. -/
theorem forall_region (h : RegionsOf o root tables contents) {P : Region → Prop}
    (table : ∀ r place, r.TableAt o.blockBytes place → P r)
    (content : ∀ r place, r.ContentAt o.blockBytes place → place.2.size ≠ 0 → P r) :
    ∀ r ∈ tables ++ contents, P r := by
  refine List.forall_mem_append.2 ⟨?_, ?_⟩
  · intro r mem
    obtain ⟨place, _, is⟩ := exists_of_mem_left h.tableAt mem
    exact table r place is
  · intro r mem
    obtain ⟨place, found, is⟩ := exists_of_mem_left h.contentAt mem
    exact content r place is (of_decide_eq_true (List.mem_filter.1 found).2)

theorem count_pos (h : RegionsOf o root tables contents) (pos : 0 < o.blockBytes) :
    ∀ r ∈ tables ++ contents, 0 < r.count.toNat :=
  h.forall_region (fun _ _ is => is.count_pos) fun _ _ is => is.count_pos pos

theorem used_le (h : RegionsOf o root tables contents) (pos : 0 < o.blockBytes) :
    ∀ r ∈ tables ++ contents, r.used ≤ r.length o.blockBytes :=
  h.forall_region (fun _ _ is => is.used_le pos) fun _ _ is _ => is.used_le pos

/-- The regions of the settled tree are those of the tree. -/
theorem of_settled (h : RegionsOf o root.settled tables contents) :
    RegionsOf o root tables contents where
  tableAt := by
    have same := h.tableAt
    rw [root.directories_settled, List.forall₂_map_right_iff] at same
    exact same.imp fun r place is => ⟨is.path, by simpa using is.count, by simpa using is.segment⟩
  contentAt := by
    have same := h.contentAt
    have filled : (fun place : Path × File => decide (place.2.size ≠ 0)) ∘ Prod.map id File.settled
        = fun place => decide (place.2.size ≠ 0) := by
      funext place
      simp
    rw [root.allFiles_settled, List.filter_map, filled, List.forall₂_map_right_iff] at same
    exact same.imp fun r place is => ⟨is.path, by simpa using is.count, by simpa using is.segment⟩
  tiles := by
    rw [← root.totalBlocks_settled]
    exact h.tiles

/-- The regions of a tree have the blocks that its plan gives to its tables and, behind these, to
its files. -/
theorem extents_of_plan (h : RegionsOf o root tables contents) {l : Layout}
    (planned : Layout.plan root o = .ok l) : (tables ++ contents).map Region.extent
      = l.tables.map PlannedTable.extent ++ l.files.map PlannedFile.extent := by
  obtain ⟨placeable, is⟩ := Directory.plan_eq_ok_iff.1 planned
  have tiling : l.Tiling o root := is ▸ placeable.tiling
  refine h.tiles.eq_of_counts (tiling.tablesTile.append tiling.filesTile) ?_
  have ofTables : (tables.map Region.extent).map Extent.count
      = (l.tables.map PlannedTable.extent).map Extent.count := by
    rw [List.map_map, List.map_map]
    exact (map_eq_of_forall₂ h.tableAt fun _ _ is => is.count).trans
      (map_eq_of_forall₂ tiling.tables fun _ _ is => is.count).symm
  have ofFiles : (contents.map Region.extent).map Extent.count
      = (l.files.map PlannedFile.extent).map Extent.count := by
    rw [List.map_map, List.map_map]
    exact (map_eq_of_forall₂ h.contentAt fun _ _ is => is.count).trans
      (map_eq_of_forall₂ tiling.files fun _ _ is => is.count).symm
  rw [List.map_append, List.map_append, List.map_append, ofTables, ofFiles]

/-- The statistics of the regions of a tree account for every byte of the image. -/
theorem sum_shares (h : RegionsOf o root tables contents) (pos : 0 < o.blockBytes) :
    ((shares o.blockBytes ((tables ++ contents).map .region)).map Prod.snd).sum
      = root.totalBlocks o * o.blockBytes := by
  rw [Dump.sum_shares (h.used_le pos), ← sum_length_of_tiles h.tiles, Nat.one_mul]

end RegionsOf

end Dump

/-! ## The regions of a layout -/

/-- The region of a planned table. -/
def PlannedTable.region (t : PlannedTable) : Region := ⟨t.start, t.count, t.path, .table t.records⟩

theorem PlannedTable.TableOf.region {blockSize : Nat} {t : PlannedTable} {place : Path × Directory}
    (h : t.TableOf blockSize place) : t.region.TableAt blockSize place :=
  ⟨h.path, h.count, _, rfl, h.records.length_eq.trans (Entries.length_toList _)⟩

/-- A region holds the content of a planned file. -/
structure PlannedFile.RegionOf (f : PlannedFile) (r : Region) : Prop where
  start : r.start = f.start
  count : r.count = f.count
  path : r.path = f.path
  segment : ∃ record, r.segment = .data record ∧ record.size.toNat = f.size.toNat

/-- What holds the planned content of files is their content. -/
theorem PlannedFile.contentAt_of_regionOf {blockSize : Nat} {files : List PlannedFile}
    {contents : List Region} {places : List (Path × File)}
    (held : List.Forall₂ PlannedFile.RegionOf files contents)
    (planned : List.Forall₂ (PlannedFile.ContentOf blockSize) files places) :
    List.Forall₂ (Region.ContentAt blockSize) contents places := by
  induction held generalizing places with
  | nil =>
    cases planned
    exact .nil
  | cons held _ ih =>
    obtain _ | ⟨is, planned⟩ := planned
    obtain ⟨record, holds, size⟩ := held.segment
    refine .cons ⟨held.path.trans is.path, ?_, record, holds, ?_⟩ (ih planned)
    · rw [held.count, is.count]
    · rw [size, is.size]

theorem PlannedFile.RegionOf.extent {f : PlannedFile} {r : Region} (h : f.RegionOf r) :
    f.extent = r.extent := by
  rw [Region.extent, PlannedFile.extent, h.start, h.count]

/-! ## What the records of an image claim -/

/-- What a file's record claims. -/
theorem Entry.listed_file (sound : img.Sound) (size : img.blockSize.toNat = o.blockBytes)
    (valid : o.validate = .ok ()) {path : Path} {name : Bytes} {counted : Nat} {s : Spot} (f : File)
    (none : (Entry.file f).refusal? o path name counted s.data = none)
    (exact : (Entry.file f).Exact sources) (parent : UInt32)
    (stand : img.Stand s [] ((Entry.file f).dataBytes o.blockBytes sources)) (shown : Path) :
    ∃ data, Listed img [(shown, (Entry.file f).record o parent name s)] data
      ∧ List.Forall₂ PlannedFile.RegionOf
        ((Entry.file f).files o.blockBytes (Path.join shown name) s.data) data := by
  have named := Entry.name_record _ none parent s
  have measures := Entry.measures valid (Entry.refusal?_eq_none_iff.1 none).2.2 parent name s
  have is : ¬ ((Entry.file f).record o parent name s).isDirectory := by
    intro is
    cases is
  obtain ⟨content, readable, _⟩ := Entry.fileData_record sound size valid f none exact parent stand
  have blocks := measures.count
  simp only [Entry.blocks] at blocks
  rw [Entry.files]
  by_cases empty : f.size = 0
  · rw [if_pos empty]
    refine ⟨[], .empty named is (UInt32.toNat_inj.1 ?_) .nil, .nil⟩
    rw [blocks, empty]
    exact Geometry.blocksFor_zero _
  · rw [if_neg empty]
    have filled : f.size.toNat ≠ 0 := fun zero => empty (UInt64.toNat_inj.1 zero)
    have some : ((Entry.file f).record o parent name s).count ≠ 0 := by
      intro zero
      have pos := (Geometry.blocksFor_pos (Options.blockBytes_pos_of_validate valid)).2
        (Nat.pos_of_ne_zero filled)
      rw [← blocks, zero] at pos
      exact absurd pos (Nat.lt_irrefl 0)
    refine ⟨_, .file named is some readable .nil, .cons ⟨?_, rfl, rfl, _, rfl, measures.size⟩ .nil⟩
    simp only [Entry.record, Entry.start, if_neg empty]

mutual

/-- The records in a directory claim the tables below it and its contents. -/
theorem Directory.listed_of_stand (sound : img.Sound) (size : img.blockSize.toNat = o.blockBytes)
    (valid : o.validate = .ok ()) {path : Path} {counted : Nat} {s : Spot} (d : Directory)
    (none : d.offence? o path counted s.data = none) (exact : d.Exact sources) (own : UInt32)
    (stand : img.Stand s (d.tableBytes o own s) (d.dataBytes o.blockBytes sources))
    (shown : Path) : ∃ inner data,
      Listed img ((d.entries.records o own (s.below o.blockBytes d.entries)).map (shown, ·)) inner
        ∧ List.Forall₂ PlannedFile.RegionOf (d.files o.blockBytes shown s.data) data
        ∧ ((⟨UInt32.ofNat s.tables, UInt32.ofNat (Geometry.tableBlocks d.size o.blockBytes), shown,
            .table (d.entries.records o own (s.below o.blockBytes d.entries))⟩ : Region)
          :: inner).Perm ((d.tables o shown own s).map PlannedTable.region ++ data) := by
  cases d with
  | mk mtime entries =>
    have inside := stand.below size valid
    obtain ⟨inner, data, listed, contents, perm⟩ := entries.listed_of_stand sound size valid
      (s := s.below o.blockBytes entries) none exact _ own inside shown
    exact ⟨inner, data, listed, contents, perm.cons _⟩

theorem Entries.listed_of_stand (sound : img.Sound) (size : img.blockSize.toNat = o.blockBytes)
    (valid : o.validate = .ok ()) {path : Path} {counted : Nat} {s : Spot}
    (entries : Entries) (none : entries.offence? o path counted s.data = none)
    (exact : entries.Exact sources) (own parent : UInt32)
    (stand : img.Stand s (entries.tableBytes o own s) (entries.dataBytes o.blockBytes sources))
    (shown : Path) : ∃ claimed data,
      Listed img ((entries.records o parent s).map (shown, ·)) claimed
        ∧ List.Forall₂ PlannedFile.RegionOf (entries.files o.blockBytes shown s.data) data
        ∧ claimed.Perm ((entries.tables o shown own s).map PlannedTable.region ++ data) := by
  cases entries with
  | nil => exact ⟨[], [], .nil, .nil, .refl _⟩
  | cons name entry rest =>
    simp only [Entries.offence?, Option.or_eq_none_iff] at none
    have behind := stand.rest size valid exact.1
    obtain ⟨first, data, listed, contents, perm⟩ :=
      entry.listed_of_stand sound size valid none.1 exact.1 own parent stand.left shown
    obtain ⟨others, data', listed', contents', perm'⟩ := rest.listed_of_stand sound size valid
      (s := s.after o.blockBytes entry) none.2 exact.2 own parent behind shown
    refine ⟨first ++ others, data ++ data', listed.append listed',
      List.rel_append contents contents', (perm.append perm').trans ?_⟩
    -- All tables stand in front of all contents.
    rw [Entries.tables, List.map_append, List.append_assoc, List.append_assoc]
    exact (List.perm_append_comm_assoc data _ data').append_left _

theorem Entry.listed_of_stand (sound : img.Sound) (size : img.blockSize.toNat = o.blockBytes)
    (valid : o.validate = .ok ()) {path : Path} {name : Bytes} {counted : Nat} {s : Spot}
    (entry : Entry) (none : entry.offence? o path name counted s.data = none)
    (exact : entry.Exact sources) (own parent : UInt32)
    (stand : img.Stand s (entry.tableBytes o own s) (entry.dataBytes o.blockBytes sources))
    (shown : Path) : ∃ claimed data,
      Listed img [(shown, entry.record o parent name s)] claimed
        ∧ List.Forall₂ PlannedFile.RegionOf
          (entry.files o.blockBytes (Path.join shown name) s.data) data
        ∧ claimed.Perm
          ((entry.tables o (Path.join shown name) own s).map PlannedTable.region ++ data) := by
  cases entry with
  | file f =>
    obtain ⟨data, listed, contents⟩ :=
      Entry.listed_file sound size valid f none exact parent stand shown
    exact ⟨data, data, listed, contents, .refl _⟩
  | directory d =>
    simp only [Entry.offence?, Option.or_eq_none_iff] at none
    have named := (Entry.directory d).name_record none.1 parent s
    have readable := Entry.directory_record sound size valid d none.1 parent own stand
    obtain ⟨inner, data, listed, contents, perm⟩ := d.listed_of_stand sound size valid none.2 exact
      own stand (Path.join shown name)
    refine ⟨_, data, .directory named rfl readable listed .nil, contents, ?_⟩
    rw [List.append_nil]
    exact perm

end

/-! ## The dump -/

namespace Directory

variable {root : Directory} {bytes : ByteArray}

/-- The regions of a compiled image whose files have the sizes that they claim. -/
theorem Placeable.regions_opened (h : root.Placeable o) (exact : root.Exact sources)
    (encoded : Bytes.ofBuffer bytes = root.encode o sources) :
    ∃ tables contents, RegionsOf o root tables contents
      ∧ regions (root.opened o bytes) = .ok (tables ++ contents) := by
  have sound := h.sound_opened exact encoded
  have stand := h.stand_opened exact encoded
  have tiling := h.tiling
  obtain ⟨inner, contents, listed, held, perm⟩ :=
    root.listed_of_stand sound rfl h.valid h.placed exact 1 stand rootPath
  have tables : ((root.layout o).tables.map PlannedTable.region).map Region.extent
      = (root.layout o).tables.map PlannedTable.extent := List.map_map
  have files : (root.layout o).files.map PlannedFile.extent = contents.map Region.extent :=
    map_eq_of_forall₂ held fun _ _ is => is.extent
  have of : RegionsOf o root ((root.layout o).tables.map PlannedTable.region) contents := {
    tableAt := List.forall₂_map_left_iff.2 (tiling.tables.imp fun t place is => is.region)
    contentAt := PlannedFile.contentAt_of_regionOf held tiling.files
    tiles := by
      have blocks : (root.layout o).totalBlocks.toNat = root.totalBlocks o :=
        UInt32.toNat_ofNat_of_lt' h.totalBlocks_lt
      rw [List.map_append, tables, ← files, ← blocks]
      exact tiling.tablesTile.append tiling.filesTile }
  have claimed : Claimed (root.opened o bytes) _ :=
    ⟨_, inner, h.root_opened exact encoded, listed, rfl⟩
  refine ⟨_, contents, of, regions_eq_ok_iff.2 ⟨_, claimed, ?_, ?_⟩⟩
  · have length := Entries.length_records o 1 ((root.spot o).below o.blockBytes root.entries)
      root.entries
    rw [rootRegion, length]
    exact perm.symm
  · exact ascending_of_tiles of.tiles (of.count_pos (Options.blockBytes_pos_of_validate h.valid))

/-- The dump of an image that was compiled succeeds. Between the header and the statistics it has
the regions of the tree, in the order of the plan, and nothing else: each table and each content is
labelled with the path, the blocks and the entries or bytes that it has in the tree, no line is a
mark, and the statistics account for every byte of the image. -/
theorem report_of_image (image : root.image sources o = .ok bytes) :
    ∃ img l tables contents, Image.ofBytes bytes = .ok img ∧ Layout.plan root o = .ok l
      ∧ RegionsOf o root tables contents
      ∧ List.Forall₂ (fun r place => ∃ records : List Record, records.length = place.2.size
        ∧ r.lines o.blockBytes
          = tableLabel o.blockBytes r.start.toNat place ++ records.mapIdx recordLine ++ [""])
        tables (root.directories rootPath)
      ∧ List.Forall₂ (fun r place =>
          r.lines o.blockBytes = contentLabel o.blockBytes r.start.toNat place ++ [""])
        contents ((root.allFiles rootPath).filter fun place => place.2.size ≠ 0)
      ∧ (tables ++ contents).map Region.extent
        = l.tables.map PlannedTable.extent ++ l.files.map PlannedFile.extent
      ∧ (tables ++ contents).Pairwise (fun a b => a.start < b.start)
      ∧ (let spent := shares o.blockBytes ((tables ++ contents).map .region)
        report bytes = ⟨lines (headerLines img
            ++ (tables ++ contents).flatMap (Region.lines o.blockBytes)
            ++ usageLines bytes.size spent), none⟩
          ∧ ((totals spent).map Prod.snd).sum = bytes.size
          ∧ ∀ total ∈ totals spent, total.1 ≠ .unassigned)
      ∧ ∀ line ∈ (report bytes).text.toList.splitOn '\n', ¬ ['*', '*', '*'] <+: line := by
  obtain ⟨placeable, exact, encoded⟩ := settled_of_image image
  obtain ⟨tables, contents, of, listed⟩ := placeable.regions_opened exact encoded
  have opened := placeable.ofBytes_eq_opened exact encoded
  have pos := Options.blockBytes_pos_of_validate placeable.valid
  have planned := plan_eq_ok_iff.2 ⟨(image_eq_ok image).1, rfl⟩
  have size : bytes.size = root.totalBlocks o * o.blockBytes := by
    rw [← Buffer.length_ofBuffer, encoded, placeable.length_encode exact, totalBlocks_settled]
  have found : findings (root.settled.opened o bytes) (tables ++ contents)
      = (tables ++ contents).map .region := by
    refine sweep_of_tiles ?_
    rw [placeable.toNat_totalBlocks]
    exact of.tiles
  refine ⟨root.settled.opened o bytes, _, tables, contents, opened, planned, of.of_settled,
    of.of_settled.tableAt.imp fun _ _ is => is.lines_eq,
    of.of_settled.contentAt.imp fun _ _ is => is.lines_eq,
    of.of_settled.extents_of_plan planned, ascending_of_tiles of.tiles (of.count_pos pos),
    ⟨?_, ?_, ?_⟩, ?_⟩
  · rw [report_eq opened listed, found, reportLines, List.flatMap_map]
    rfl
  · rw [sum_totals, of.of_settled.sum_shares pos, size]
  · intro total mem
    obtain ⟨share, mem, same⟩ := exists_share_of_mem_totals mem
    rw [← same]
    exact usage_ne_unassigned mem
  · intro line mem marked
    rw [splitOn_text opened listed, found, List.mem_append, List.mem_singleton] at mem
    obtain mem | rfl := mem
    · obtain ⟨text, own, rfl⟩ := List.mem_map.1 mem
      -- Only regions are found, and only other findings are marked.
      obtain ⟨f, among, _, unlisted⟩ := mark_of_starred own (starred_of_mark marked rfl)
      obtain ⟨r, _, rfl⟩ := List.mem_map.1 among
      exact unlisted r rfl
    · cases List.prefix_nil.1 marked

/-- The dump of the image of the small tree. -/
theorem report_of_image_sample : ∃ bytes tables contents,
    sample.image (fun _ => .error (.described "missing")) {} = .ok bytes
      ∧ RegionsOf {} sample tables contents ∧ (report bytes).failure = none
      ∧ ∀ line ∈ (report bytes).text.toList.splitOn '\n', ¬ ['*', '*', '*'] <+: line := by
  obtain ⟨bytes, image⟩ := exists_image_sample none fun _ => .error (.described "missing")
  obtain ⟨_, _, tables, contents, _, _, of, _, _, _, _, ⟨report, _⟩, unmarked⟩ :=
    report_of_image image
  exact ⟨bytes, tables, contents, image, of, congrArg Report.failure report, unmarked⟩

end Directory

end

end FlatImage
