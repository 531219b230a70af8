import FlatImage.Proofs.Compilation
import FlatImage.Proofs.Header
import FlatImage.Proofs.Snapshot

/-!
# Reading back what was compiled

The encoding of a tree is a concatenation along the tree, so the part that belongs to an entry is
found by splitting it as the entries are: `Image.Stand` carries the place of that part in both
regions of the image through the recursion. At each entry the reader's checks are met because the
fields of its record are exact.
-/

namespace FlatImage

/-- Bytes of tables and of contents stand at a spot, each inside its region of an image. -/
structure Image.Stand (img : Image) (s : Spot) (tables data : Bytes) : Prop where
  behind : 1 ≤ s.tables
  tables_at : (Bytes.ofBuffer img.bytes).At (s.tables * img.blockSize.toNat) tables
  tables_le : s.tables * img.blockSize.toNat + tables.length
    ≤ img.superblock.dataStart.toNat * img.blockSize.toNat
  data_ge : img.superblock.dataStart.toNat ≤ s.data
  data_at : (Bytes.ofBuffer img.bytes).At (s.data * img.blockSize.toNat) data
  data_le : s.data * img.blockSize.toNat + data.length
    ≤ img.superblock.totalBlocks.toNat * img.blockSize.toNat

namespace Image.Stand

variable {img : Image} {s : Spot} {tables tables' data data' : Bytes}

theorem left (h : img.Stand s (tables ++ tables') (data ++ data')) : img.Stand s tables data where
  behind := h.behind
  tables_at := h.tables_at.left
  tables_le := by
    have := h.tables_le
    rw [List.length_append] at this
    omega
  data_ge := h.data_ge
  data_at := h.data_at.left
  data_le := by
    have := h.data_le
    rw [List.length_append] at this
    omega

theorem right (h : img.Stand s (tables ++ tables') (data ++ data')) {tableBlocks dataBlocks : Nat}
    (front : tables.length = tableBlocks * img.blockSize.toNat)
    (front' : data.length = dataBlocks * img.blockSize.toNat) :
    img.Stand ⟨s.tables + tableBlocks, s.data + dataBlocks⟩ tables' data' where
  behind := Nat.le_trans h.behind (Nat.le_add_right ..)
  tables_at := by
    have := h.tables_at.right
    rwa [front, ← Nat.add_mul] at this
  tables_le := by
    have := h.tables_le
    rwa [List.length_append, front, ← Nat.add_assoc, ← Nat.add_mul] at this
  data_ge := Nat.le_trans h.data_ge (Nat.le_add_right ..)
  data_at := by
    have := h.data_at.right
    rwa [front', ← Nat.add_mul] at this
  data_le := by
    have := h.data_le
    rwa [List.length_append, front', ← Nat.add_assoc, ← Nat.add_mul] at this

end Image.Stand

/-! ## The lengths of the parts -/

section

variable {o : Options} {sources : Sources}

/-- The records of a directory fit into the blocks of its table. -/
theorem Entries.length_encodeMany_le (pos : 0 < o.blockBytes) (parent : UInt32) (s : Spot)
    (entries : Entries) : (Record.encodeMany (entries.records o parent s)).length
      ≤ Geometry.tableBlocks entries.size o.blockBytes * o.blockBytes := by
  rw [Record.length_encodeMany, Entries.length_records]
  exact Geometry.le_tableBlocks_mul pos

mutual

theorem Directory.length_tableBytes (pos : 0 < o.blockBytes) (parent : UInt32) (s : Spot)
    (d : Directory) :
    (d.tableBytes o parent s).length = d.tableBlocks o.blockBytes * o.blockBytes := by
  cases d with
  | mk mtime entries =>
    have own := entries.length_encodeMany_le pos parent (s.below o.blockBytes entries)
    simp only [Directory.tableBytes, List.length_append, Directory.tableBlocks]
    rw [Bytes.length_padTo_of_le own, entries.length_tableBytes pos, Nat.add_mul]

theorem Entries.length_tableBytes (pos : 0 < o.blockBytes) (own : UInt32) (s : Spot)
    (entries : Entries) :
    (entries.tableBytes o own s).length = entries.tableBlocks o.blockBytes * o.blockBytes := by
  cases entries with
  | nil => exact (Nat.zero_mul _).symm
  | cons name entry rest =>
    simp only [Entries.tableBytes, List.length_append, Entries.tableBlocks]
    rw [entry.length_tableBytes pos, rest.length_tableBytes pos, Nat.add_mul]

theorem Entry.length_tableBytes (pos : 0 < o.blockBytes) (own : UInt32) (s : Spot)
    (entry : Entry) :
    (entry.tableBytes o own s).length = entry.tableBlocks o.blockBytes * o.blockBytes := by
  cases entry with
  | file f => exact (Nat.zero_mul _).symm
  | directory d => exact d.length_tableBytes pos own s

end

mutual

theorem Directory.length_dataBytes {blockSize : Nat} (pos : 0 < blockSize) (d : Directory)
    (exact : d.Exact sources) :
    (d.dataBytes blockSize sources).length = d.dataBlocks blockSize * blockSize := by
  cases d with
  | mk mtime entries => exact entries.length_dataBytes pos exact

theorem Entries.length_dataBytes {blockSize : Nat} (pos : 0 < blockSize) (entries : Entries)
    (exact : entries.Exact sources) :
    (entries.dataBytes blockSize sources).length = entries.dataBlocks blockSize * blockSize := by
  cases entries with
  | nil => exact (Nat.zero_mul _).symm
  | cons name entry rest =>
    simp only [Entries.dataBytes, List.length_append, Entries.dataBlocks]
    rw [entry.length_dataBytes pos exact.1, rest.length_dataBytes pos exact.2, Nat.add_mul]

theorem Entry.length_dataBytes {blockSize : Nat} (pos : 0 < blockSize) (entry : Entry)
    (exact : entry.Exact sources) :
    (entry.dataBytes blockSize sources).length = entry.dataBlocks blockSize * blockSize := by
  cases entry with
  | file f =>
    simp only [Entry.dataBytes, Entry.dataBlocks]
    by_cases empty : f.size = 0
    · simp [empty]
    · rw [if_neg empty, Bytes.length_padTo_of_le]
      rw [Content.Holds.length_bytes exact]
      exact Geometry.le_blocksFor_mul pos
  | directory d => exact d.length_dataBytes pos exact

end

/-! ## The parts of a directory -/

namespace Image.Stand

variable {img : Image}

/-- The blocks of a directory's own table are among those for tables. -/
theorem own_le (size : img.blockSize.toNat = o.blockBytes) (valid : o.validate = .ok ())
    {s : Spot} {d : Directory} {own : UInt32}
    (stand : img.Stand s (d.tableBytes o own s) (d.dataBytes o.blockBytes sources)) :
    s.tables + Geometry.tableBlocks d.size o.blockBytes ≤ img.superblock.dataStart.toNat := by
  have pos := Options.blockBytes_pos_of_validate valid
  have last := stand.tables_le
  rw [d.length_tableBytes pos, size, ← Nat.add_mul] at last
  exact Nat.le_trans (Nat.add_le_add_left d.own_le_tableBlocks _)
    (Nat.le_of_mul_le_mul_right last pos)

theorem toNat_own (size : img.blockSize.toNat = o.blockBytes) (valid : o.validate = .ok ())
    {s : Spot} {d : Directory} {own : UInt32}
    (stand : img.Stand s (d.tableBytes o own s) (d.dataBytes o.blockBytes sources)) :
    (UInt32.ofNat s.tables).toNat = s.tables :=
  UInt32.toNat_ofNat_of_lt' (Nat.lt_of_le_of_lt
    (Nat.le_trans (Nat.le_add_right ..) (stand.own_le size valid))
    img.superblock.dataStart.toNat_lt)

theorem records_at {s : Spot} {d : Directory} {own : UInt32}
    (stand : img.Stand s (d.tableBytes o own s) (d.dataBytes o.blockBytes sources)) :
    (Bytes.ofBuffer img.bytes).At (s.tables * img.blockSize.toNat)
      (Record.encodeMany (d.entries.records o own (s.below o.blockBytes d.entries))) := by
  cases d
  exact stand.tables_at.left.of_padTo

/-- The entries of a directory stand behind its own table. -/
theorem below (size : img.blockSize.toNat = o.blockBytes) (valid : o.validate = .ok ())
    {s : Spot} {d : Directory} {own : UInt32}
    (stand : img.Stand s (d.tableBytes o own s) (d.dataBytes o.blockBytes sources)) :
    img.Stand (s.below o.blockBytes d.entries)
      (d.entries.tableBytes o (UInt32.ofNat s.tables) (s.below o.blockBytes d.entries))
      (d.entries.dataBytes o.blockBytes sources) := by
  cases d with
  | mk mtime entries =>
    have pos := Options.blockBytes_pos_of_validate valid
    have fits := entries.length_encodeMany_le pos own (s.below o.blockBytes entries)
    -- Behind the own table come the tables below it, and no content before theirs.
    have whole : img.Stand s (Bytes.padTo _ _ ++ entries.tableBytes o _ _)
      ([] ++ entries.dataBytes o.blockBytes sources) := stand
    exact whole.right (by rw [size]; exact Bytes.length_padTo_of_le fits) (Nat.zero_mul _).symm

/-- Later entries stand behind the first one and everything below it. -/
theorem rest (size : img.blockSize.toNat = o.blockBytes) (valid : o.validate = .ok ())
    {s : Spot} {own : UInt32} {name : Bytes} {entry : Entry} {others : Entries}
    (exact : entry.Exact sources)
    (stand : img.Stand s ((Entries.cons name entry others).tableBytes o own s)
      ((Entries.cons name entry others).dataBytes o.blockBytes sources)) :
    img.Stand (s.after o.blockBytes entry)
      (others.tableBytes o own (s.after o.blockBytes entry))
      (others.dataBytes o.blockBytes sources) := by
  have pos := Options.blockBytes_pos_of_validate valid
  refine Stand.right stand ?_ ?_
  · rw [size]
    exact entry.length_tableBytes pos own s
  · rw [size]
    exact entry.length_dataBytes pos exact

end Image.Stand

/-! ## Single entries -/

/-- The record of an entry with a place gives back its name. -/
theorem Entry.name_record {path : Path} {name : Bytes} {counted data : Nat} (entry : Entry)
    (none : entry.refusal? o path name counted data = none) (parent : UInt32) (s : Spot) :
    Image.name (entry.record o parent name s) = .ok name := by
  refine Image.name_of_padName (Entry.refusal?_eq_none_iff.1 none).1 rfl rfl ?_
  cases entry with
  | file f => exact .inr rfl
  | directory d => exact .inl rfl

variable {img : Image}

/-- The record of a file that is not empty names the blocks in which its content stands. -/
theorem Image.Stand.content_of_file (sound : img.Sound) (size : img.blockSize.toNat = o.blockBytes)
    {s : Spot} {f : File} (exact : f.content.Holds sources f.size.toNat)
    (stand : img.Stand s [] ((Entry.file f).dataBytes o.blockBytes sources))
    (filled : f.size ≠ 0) :
    (UInt32.ofNat ((Entry.file f).start s)).toNat = s.data
      ∧ s.data + Geometry.blocksFor f.size.toNat o.blockBytes ≤ img.superblock.totalBlocks.toNat
      ∧ (Bytes.ofBuffer img.bytes).At (s.data * img.blockSize.toNat) (f.content.bytes sources) := by
  have blocks : (Entry.file f).dataBytes o.blockBytes sources
      = Bytes.padTo (Geometry.blocksFor f.size.toNat o.blockBytes * o.blockBytes)
        (f.content.bytes sources) := by
    rw [Entry.dataBytes, if_neg filled]
  have fits : (f.content.bytes sources).length
      ≤ Geometry.blocksFor f.size.toNat o.blockBytes * o.blockBytes := by
    rw [exact.length_bytes]
    exact Geometry.le_blocksFor_mul (size ▸ sound.pos)
  have last := stand.data_le
  rw [blocks, Bytes.length_padTo_of_le fits, ← size, ← Nat.add_mul] at last
  have last := Nat.le_of_mul_le_mul_right last sound.pos
  have limit := img.superblock.totalBlocks.toNat_lt
  have stands := stand.data_at
  rw [blocks] at stands
  refine ⟨?_, size ▸ last, stands.of_padTo⟩
  simp only [Entry.start, if_neg filled]
  exact UInt32.toNat_ofNat_of_lt' (by simp only [UInt32.size]; omega)

theorem Entry.fileData_record (sound : img.Sound) (size : img.blockSize.toNat = o.blockBytes)
    (valid : o.validate = .ok ()) {path : Path} {name : Bytes} {counted : Nat} {s : Spot} (f : File)
    (none : (Entry.file f).refusal? o path name counted s.data = none)
    (exact : (Entry.file f).Exact sources) (parent : UInt32)
    (stand : img.Stand s [] ((Entry.file f).dataBytes o.blockBytes sources)) :
    ∃ data, img.fileData ((Entry.file f).record o parent name s) = .ok data
      ∧ Bytes.ofBuffer data = f.content.bytes sources := by
  have named := Entry.name_record _ none parent s
  have measures := Entry.measures valid (Entry.refusal?_eq_none_iff.1 none).2.2 parent name s
  have length : (f.content.bytes sources).length = f.size.toNat := Content.Holds.length_bytes exact
  have inside (some : f.content.bytes sources ≠ []) :
      img.superblock.dataStart.toNat ≤ ((Entry.file f).record o parent name s).start.toNat
        ∧ ((Entry.file f).record o parent name s).start.toNat
            + ((Entry.file f).record o parent name s).count.toNat
          ≤ img.superblock.totalBlocks.toNat
        ∧ (Bytes.ofBuffer img.bytes).At (((Entry.file f).record o parent name s).start.toNat
          * img.blockSize.toNat) (f.content.bytes sources) := by
    have filled : f.size ≠ 0 := by
      intro empty
      rw [empty] at length
      exact some (List.length_eq_zero_iff.1 length)
    obtain ⟨start, last, stands⟩ := stand.content_of_file sound size exact filled
    have start : ((Entry.file f).record o parent name s).start.toNat = s.data := start
    rw [start, measures.count]
    exact ⟨stand.data_ge, last, stands⟩
  exact Image.fileData_of_at sound (f.content.bytes sources) named rfl
    (by rw [length]; exact measures.size) (by rw [length, size]; exact measures.count) inside

/-- The record of a file shows its content, at any depth. -/
theorem Entry.look_file (sound : img.Sound) (size : img.blockSize.toNat = o.blockBytes)
    (valid : o.validate = .ok ()) {path : Path} {name : Bytes} {counted : Nat} {s : Spot} (f : File)
    (none : (Entry.file f).refusal? o path name counted s.data = none)
    (exact : (Entry.file f).Exact sources) (parent : UInt32)
    (stand : img.Stand s [] ((Entry.file f).dataBytes o.blockBytes sources)) (depth : Nat) :
    img.look depth ((Entry.file f).record o parent name s)
      = .ok ((Entry.file f).snapshot o sources) := by
  obtain ⟨content, found, bytes⟩ := Entry.fileData_record sound size valid f none exact parent stand
  have plain (depth : Nat) : img.look depth ((Entry.file f).record o parent name s)
      = (img.fileData ((Entry.file f).record o parent name s)).map (.file <| Bytes.ofBuffer ·) := by
    cases depth <;> rfl
  rw [plain, found]
  exact congrArg (Except.ok <| Snapshot.file ·) bytes

theorem Entry.directory_record (sound : img.Sound) (size : img.blockSize.toNat = o.blockBytes)
    (valid : o.validate = .ok ()) {path : Path} {name : Bytes} {counted : Nat} {s : Spot}
    (d : Directory) (none : (Entry.directory d).refusal? o path name counted s.data = none)
    (parent own : UInt32)
    (stand : img.Stand s (d.tableBytes o own s) (d.dataBytes o.blockBytes sources)) :
    img.directory ((Entry.directory d).record o parent name s)
      = .ok (d.entries.records o own (s.below o.blockBytes d.entries)) := by
  have named := Entry.name_record _ none parent s
  have measures := Entry.measures valid (Entry.refusal?_eq_none_iff.1 none).2.2 parent name s
  have length : (d.entries.records o own (s.below o.blockBytes d.entries)).length = d.size :=
    Entries.length_records ..
  have start : ((Entry.directory d).record o parent name s).start.toNat = s.tables :=
    stand.toNat_own size valid
  refine Image.directory_of_at sound named rfl ?_ ?_ ?_ ?_ ?_
  · rw [length]
    exact measures.size
  · rw [length, size]
    exact measures.count
  · rw [start]
    exact stand.behind
  · rw [start, measures.count]
    exact stand.own_le size valid
  · rw [start]
    exact stand.records_at

/-! ## The whole tree -/

mutual

theorem Directory.list_of_stand (sound : img.Sound) (size : img.blockSize.toNat = o.blockBytes)
    (valid : o.validate = .ok ()) {path : Path} {counted depth : Nat} {s : Spot} (d : Directory)
    (none : d.offence? o path counted s.data = none) (exact : d.Exact sources) (own : UInt32)
    (stand : img.Stand s (d.tableBytes o own s) (d.dataBytes o.blockBytes sources))
    (deep : d.height ≤ depth) :
    Image.list (img.look depth) (d.entries.records o own (s.below o.blockBytes d.entries))
      = .ok (d.listing o sources) := by
  cases d with
  | mk mtime entries =>
    have inner := stand.below size valid
    exact entries.list_of_stand sound size valid (s := s.below o.blockBytes entries) none exact _
      own inner deep

theorem Entries.list_of_stand (sound : img.Sound) (size : img.blockSize.toNat = o.blockBytes)
    (valid : o.validate = .ok ()) {path : Path} {counted depth : Nat} {s : Spot}
    (entries : Entries) (none : entries.offence? o path counted s.data = none)
    (exact : entries.Exact sources) (own parent : UInt32)
    (stand : img.Stand s (entries.tableBytes o own s) (entries.dataBytes o.blockBytes sources))
    (deep : entries.height ≤ depth) :
    Image.list (img.look depth) (entries.records o parent s) = .ok (entries.listing o sources) := by
  cases entries with
  | nil => rfl
  | cons name entry rest =>
    simp only [Entries.offence?, Option.or_eq_none_iff] at none
    have named := entry.name_record (Entry.refusal?_of_offence? none.1) parent s
    have first := entry.look_of_stand sound size valid none.1 exact.1 own parent stand.left
      (Nat.le_trans (Nat.le_max_left ..) deep)
    have behind := stand.rest size valid exact.1
    have others := rest.list_of_stand sound size valid (s := s.after o.blockBytes entry) none.2
      exact.2 own parent behind (Nat.le_trans (Nat.le_max_right ..) deep)
    have stamp : (entry.record o parent name s).mtime.toNat = o.stamp entry.mtime :=
      Layout.toNat_recordedMtime ..
    simp only [Entries.records, Image.list, named, first, stamp, Fault.ok_bind]
    rw [others]
    rfl

theorem Entry.look_of_stand (sound : img.Sound) (size : img.blockSize.toNat = o.blockBytes)
    (valid : o.validate = .ok ()) {path : Path} {name : Bytes} {counted depth : Nat} {s : Spot}
    (entry : Entry) (none : entry.offence? o path name counted s.data = none)
    (exact : entry.Exact sources) (own parent : UInt32)
    (stand : img.Stand s (entry.tableBytes o own s) (entry.dataBytes o.blockBytes sources))
    (deep : entry.height ≤ depth) :
    img.look depth (entry.record o parent name s) = .ok (entry.snapshot o sources) := by
  cases entry with
  | file f => exact Entry.look_file sound size valid f none exact parent stand depth
  | directory d =>
    obtain ⟨depth, rfl⟩ : ∃ below, depth = below + 1 := ⟨depth - 1, by
      simp only [Entry.height] at deep
      omega⟩
    simp only [Entry.offence?, Option.or_eq_none_iff] at none
    have records := Entry.directory_record sound size valid d none.1 parent own stand
    have inside := d.list_of_stand sound size valid none.2 exact own stand
      (Nat.le_of_succ_le_succ deep)
    have is : ((Entry.directory d).record o parent name s).isDirectory = true := rfl
    simp only [Image.look, is, if_true, records, Fault.ok_bind]
    rw [inside]
    rfl

end

/-! ## Opening the image of a tree -/

/-- The image of a tree, once it is opened. -/
def Directory.opened (o : Options) (root : Directory) (bytes : ByteArray) : Image :=
  ⟨bytes, root.superblock o, o.blockSize⟩

namespace Directory.Placeable

variable {root : Directory}

theorem length_header (h : root.Placeable o) :
    (Bytes.padTo o.blockBytes (root.superblock o).encode).length = o.blockBytes := by
  apply Bytes.length_padTo_of_le
  rw [Superblock.length_encode]
  exact Options.recordSize_le_of_validate h.valid

theorem length_front (h : root.Placeable o) :
    (Bytes.padTo o.blockBytes (root.superblock o).encode
      ++ root.tableBytes o 1 (root.spot o)).length = root.dataStart o * o.blockBytes := by
  have pos := Options.blockBytes_pos_of_validate h.valid
  rw [List.length_append, h.length_header, root.length_tableBytes pos, dataStart, Nat.add_mul,
    Nat.one_mul]

theorem length_encode (h : root.Placeable o) (exact : root.Exact sources) :
    (root.encode o sources).length = root.totalBlocks o * o.blockBytes := by
  have pos := Options.blockBytes_pos_of_validate h.valid
  rw [encode, List.length_append, h.length_front, root.length_dataBytes pos exact, totalBlocks,
    Nat.add_mul]

variable {bytes : ByteArray}

/-- Where the three parts of the encoding stand. -/
theorem parts_at (h : root.Placeable o) (encoded : Bytes.ofBuffer bytes = root.encode o sources) :
    (Bytes.ofBuffer bytes).At 0 (root.superblock o).encode
      ∧ (Bytes.ofBuffer bytes).At o.blockBytes (root.tableBytes o 1 (root.spot o))
      ∧ (Bytes.ofBuffer bytes).At (root.dataStart o * o.blockBytes)
        (root.dataBytes o.blockBytes sources) := by
  have all : (Bytes.ofBuffer bytes).At 0 (root.encode o sources) := by
    rw [encoded]
    exact List.prefix_rfl
  have tables := all.left.right
  have data := all.right
  rw [h.length_header, Nat.zero_add] at tables
  rw [h.length_front, Nat.zero_add] at data
  exact ⟨all.left.left.of_padTo, tables, data⟩

theorem toNat_dataStart (h : root.Placeable o) :
    (root.opened o bytes).superblock.dataStart.toNat = root.dataStart o :=
  UInt32.toNat_ofNat_of_lt' h.dataStart_lt

theorem toNat_totalBlocks (h : root.Placeable o) :
    (root.opened o bytes).superblock.totalBlocks.toNat = root.totalBlocks o :=
  UInt32.toNat_ofNat_of_lt' h.totalBlocks_lt

theorem sound_opened (h : root.Placeable o) (exact : root.Exact sources)
    (encoded : Bytes.ofBuffer bytes = root.encode o sources) : (root.opened o bytes).Sound where
  pos := Options.blockBytes_pos_of_validate h.valid
  data_le := by
    rw [h.toNat_dataStart, h.toNat_totalBlocks]
    exact Nat.le_add_right ..
  size := by
    rw [h.toNat_totalBlocks, ← Buffer.length_ofBuffer]
    exact (congrArg List.length encoded).trans (h.length_encode exact)

theorem stand_opened (h : root.Placeable o) (exact : root.Exact sources)
    (encoded : Bytes.ofBuffer bytes = root.encode o sources) :
    (root.opened o bytes).Stand (root.spot o) (root.tableBytes o 1 (root.spot o))
      (root.dataBytes o.blockBytes sources) := by
  obtain ⟨_, tables, data⟩ := h.parts_at encoded
  have size : (root.opened o bytes).blockSize.toNat = o.blockBytes := rfl
  have pos := Options.blockBytes_pos_of_validate h.valid
  refine ⟨Nat.le_refl _, ?_, ?_, ?_, ?_, ?_⟩
  · have first : (root.spot o).tables * o.blockBytes = o.blockBytes := Nat.one_mul _
    rw [size, first]
    exact tables
  · rw [size, h.toNat_dataStart, root.length_tableBytes pos, ← Nat.add_mul]
    exact Nat.le_refl _
  · exact Nat.le_of_eq h.toNat_dataStart
  · exact data
  · rw [size, h.toNat_totalBlocks, root.length_dataBytes pos exact, ← Nat.add_mul]
    exact Nat.le_refl _

theorem root_opened (h : root.Placeable o) (exact : root.Exact sources)
    (encoded : Bytes.ofBuffer bytes = root.encode o sources) : (root.opened o bytes).root
      = .ok (root.entries.records o 1 ((root.spot o).below o.blockBytes root.entries)) := by
  have stand := h.stand_opened exact encoded
  have length : (root.entries.records o 1 ((root.spot o).below o.blockBytes root.entries)).length
      = root.size := Entries.length_records ..
  have entries : (UInt32.ofNat root.size).toNat = root.size := by
    refine UInt32.toNat_ofNat_of_lt' ?_
    cases root
    exact Nat.lt_of_le_of_lt (Entries.size_le_count _) h.count_lt
  refine Image.table_of_at (h.sound_opened exact encoded) (entries.trans length.symm) ?_ ?_ ?_
  · exact Nat.le_refl _
  · rw [h.toNat_dataStart, length]
    exact Nat.add_le_add_left root.own_le_tableBlocks 1
  · exact stand.records_at

/-- Bytes that are the encoding of a tree are opened as its image. -/
theorem ofBytes_eq_opened (h : root.Placeable o) (exact : root.Exact sources)
    (encoded : Bytes.ofBuffer bytes = root.encode o sources) :
    Image.ofBytes bytes = .ok (root.opened o bytes) := by
  have sound := h.sound_opened exact encoded
  have shifted : (root.superblock o).blockSize? = some o.blockSize := by
    obtain ⟨shift, is⟩ := Option.isSome_iff_exists.1 (Options.validate_eq_ok_iff.1 h.valid).1
    simp only [Superblock.blockSize?, superblock, is, Option.getD_some]
    exact Geometry.ofShift?_of_shiftOf? is
  have metaBlocks : (root.superblock o).metaBlocks.toNat = root.tableBlocks o.blockBytes :=
    UInt32.toNat_ofNat_of_lt' (Nat.lt_of_le_of_lt (Nat.le_add_left ..) h.dataStart_lt)
  have dataStart : (root.superblock o).dataStart.toNat = root.dataStart o :=
    UInt32.toNat_ofNat_of_lt' h.dataStart_lt
  have regions : (root.superblock o).Regions o.blockSize.toNat bytes.size := {
    length := sound.size
    dataStart := by
      rw [metaBlocks, dataStart]
      rfl
    dataStart_le := sound.data_le
    rootTable := Nat.le_refl _
    rootTable_le := (Image.inside_of_table (h.root_opened exact encoded)).2 }
  exact Image.ofBytes_of_regions (h.parts_at encoded).1 rfl rfl shifted sound.pos regions

/-- The image of a tree is read back as the tree shows it. -/
theorem decode_opened (h : root.Placeable o) (exact : root.Exact sources)
    (encoded : Bytes.ofBuffer bytes = root.encode o sources) {depth : Nat}
    (deep : root.height ≤ depth) :
    (root.opened o bytes).decode depth = .ok (root.listing o sources) := by
  rw [Image.decode, h.root_opened exact encoded, Fault.ok_bind]
  exact root.list_of_stand (h.sound_opened exact encoded) rfl h.valid h.placed exact 1
    (h.stand_opened exact encoded) deep

end Directory.Placeable

theorem Directory.image_eq_ok {root : Directory} {bytes : ByteArray}
    (h : root.image sources o = .ok bytes) :
    root.Placeable o ∧ Bytes.ofBuffer bytes = root.encode o sources := by
  rcases run : root.compile sources o (.accepting (.hole 0)) with ⟨result, after⟩
  simp only [image, run] at h
  cases result with
  | error e => cases h
  | ok s =>
    obtain rfl := Except.ok.inj h
    by_cases placeable : root.Placeable o
    · refine ⟨placeable, ?_⟩
      rw [Blob.ofBuffer_toBuffer]
      exact (placeable.of_compile_ok run).2.2
    · obtain ⟨e, _, failed⟩ := compile_of_not_placeable placeable sources (.accepting (.hole 0))
      cases run.symm.trans failed

/-- Whatever tree was compiled, its image opens, and reading it to any depth that reaches its
lowest directory gives the tree back, with names in ascending order as they are in the tree. -/
theorem Directory.decode_of_image {root : Directory} {bytes : ByteArray}
    (exact : root.Exact sources) (h : root.image sources o = .ok bytes) :
    ∃ img, Image.ofBytes bytes = .ok img
      ∧ (∀ depth, root.height ≤ depth → img.decode depth = .ok (root.listing o sources))
      ∧ (root.ordered → (root.listing o sources).ascending) := by
  obtain ⟨placeable, encoded⟩ := image_eq_ok h
  have sound := placeable.sound_opened exact encoded
  have stand := placeable.stand_opened exact encoded
  refine ⟨root.opened o bytes, placeable.ofBytes_eq_opened exact encoded, ?_, ?_⟩
  · intro depth deep
    have all := root.list_of_stand sound rfl placeable.valid placeable.placed exact 1 stand deep
    rw [Image.decode, placeable.root_opened exact encoded, Fault.ok_bind]
    exact all
  · intro ordered
    rwa [ascending_listing]

/-- The small tree is read back from its image. -/
theorem Directory.decode_of_image_sample : ∃ bytes img,
    sample.image (fun _ => .error (.described "missing")) {} = .ok bytes
      ∧ Image.ofBytes bytes = .ok img
      ∧ img.decode 1 = .ok (sample.listing {} fun _ => .error (.described "missing")) := by
  have exact : sample.Exact fun _ => .error (.described "missing") :=
    ⟨trivial, Content.holds_inline.2 rfl, trivial⟩
  obtain ⟨bytes, image⟩ := exists_image_sample none fun _ => .error (.described "missing")
  obtain ⟨img, opened, decoded, _⟩ := decode_of_image exact image
  exact ⟨_, img, image, opened, decoded 1 (by decide)⟩

end

end FlatImage
