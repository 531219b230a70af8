import FlatImage.Proofs.Dump.Specimen
import FlatImage.Proofs.Dump.Success

/-!
# What can be read of an image that was dumped

A dump goes through every record that can be reached from the root and reads the table of every
directory. It reads the content of a file to claim its blocks, and so it does not look at a file
whose record has no blocks. Such a file can be read only if it is empty: a record that has a size
and no blocks passes the dump, and is the only kind of record that does and cannot be read.
-/

namespace FlatImage

/-- The record of a file with bytes and without blocks for them. -/
structure Record.Hollow (r : Record) : Prop where
  file : r.isFile
  blocks : r.count = 0
  bytes : r.size ≠ 0

namespace Image

variable {img : Image} {record : Record}

/-- A record of the root directory, or of any directory that a reachable record leads to. -/
inductive Reachable (img : Image) : Record → Prop where
  | root {records : List Record} {record : Record} (found : img.root = .ok records)
      (mem : record ∈ records) : Reachable img record
  | inside {above record : Record} {records : List Record} (reached : Reachable img above)
      (table : img.directory above = .ok records) (mem : record ∈ records) : Reachable img record

/-- Everything that a record stands for can be read. -/
structure Readable (img : Image) (record : Record) : Prop where
  named : ∃ name, Image.name record = .ok name
  directory : record.isDirectory → ∃ records, img.directory record = .ok records
  file : record.isFile → ∃ data, img.fileData record = .ok data

theorem not_isFile_of_isDirectory (is : record.isDirectory) : ¬ record.isFile := by
  simp only [Record.isDirectory, Record.isFile, beq_iff_eq] at is ⊢
  rw [is]
  decide

/-- A file without blocks can be read exactly when it is empty. -/
theorem fileAt_iff_of_empty (sound : img.Sound) {name : Bytes}
    (named : Image.name record = .ok name) (file : record.isFile) (none : record.count = 0) :
    img.FileAt record ↔ record.size = 0 := by
  have count : record.count.toNat = 0 := UInt32.toNat_inj.2 none
  have size : record.size = 0 ↔ record.size.toNat = 0 := UInt32.toNat_inj.symm
  rw [size]
  constructor
  · intro at'
    by_contra some
    have blocks := (Geometry.blocksFor_pos sound.pos).2 (Nat.pos_of_ne_zero some)
    rw [← at'.count, count] at blocks
    exact absurd blocks (Nat.lt_irrefl 0)
  · intro empty
    refine ⟨((decided_name record).of_ok named).1.1, beq_iff_eq.1 file, ?_, fun some => ?_⟩
    · rw [count, empty, Geometry.blocksFor_zero]
    · exact absurd empty (Nat.ne_of_gt some)

/-- The content of a file with bytes and without blocks is refused. -/
theorem fileData_of_hollow (sound : img.Sound) {name : Bytes} (named : Image.name record = .ok name)
    (hollow : record.Hollow) : img.fileData record = corrupt record := by
  have differs : record.count.toNat
      ≠ Geometry.blocksFor record.size.toNat img.blockSize.toNat := by
    rw [hollow.blocks]
    refine Nat.ne_of_lt ((Geometry.blocksFor_pos sound.pos).2 (Nat.pos_of_ne_zero fun empty => ?_))
    exact hollow.bytes (UInt32.toNat_inj.1 empty)
  simp only [fileData, named]
  rw [Fault.ok_bind, if_pos (.inr differs)]
  rfl

end Image

namespace Dump

variable {img : Image} {record : Record} {path : Path} {claimed own : List Region}
variable {pending : List (Path × Record)}

/-- What is listed for several records is listed for each of them. -/
theorem Listed.of_mem (listed : Listed img pending claimed) (mem : (path, record) ∈ pending) :
    ∃ own, Listed img [(path, record)] own := by
  obtain ⟨front, back, rfl⟩ := List.append_of_mem mem
  obtain ⟨_, _, _, (rest : Listed img ([(path, record)] ++ back) _), _⟩ := listed.split
  obtain ⟨own, _, single, _, _⟩ := rest.split
  exact ⟨own, single⟩

/-- The records of a directory that is listed are listed too. -/
theorem Listed.of_directory (valid : img.Valid) (listed : Listed img [(path, record)] own)
    {records : List Record} (table : img.directory record = .ok records) :
    ∃ path inner, Listed img (records.map (path, ·)) inner := by
  obtain ⟨directory, _⟩ := (Image.decided_directory valid record).of_ok table
  cases listed with
  | directory _ _ readable below _ =>
    obtain rfl := Except.ok.inj (table.symm.trans readable)
    exact ⟨_, _, below⟩
  | empty _ is _ _ => exact absurd (beq_iff_eq.2 directory.kind) is
  | file _ is _ _ _ => exact absurd (beq_iff_eq.2 directory.kind) is

/-- Every record that can be reached is listed. -/
theorem Claimed.listed_of_reachable (valid : img.Valid) (all : Claimed img claimed)
    (reached : img.Reachable record) : ∃ path own, Listed img [(path, record)] own := by
  have listed {path : Path} {records : List Record} {inner : List Region} {record : Record}
      (h : Listed img (records.map (path, ·)) inner) (mem : record ∈ records) :
      ∃ path own, Listed img [(path, record)] own := by
    obtain ⟨own, single⟩ := h.of_mem (List.mem_map_of_mem mem)
    exact ⟨path, own, single⟩
  induction reached with
  | root found mem =>
    obtain ⟨records, inner, root, below, _⟩ := all
    obtain rfl := Except.ok.inj (found.symm.trans root)
    exact listed below mem
  | inside _ table mem ih =>
    obtain ⟨_, _, single⟩ := ih
    obtain ⟨_, _, below⟩ := single.of_directory valid table
    exact listed below mem

theorem Listed.exists_name (listed : Listed img [(path, record)] own) :
    ∃ name, Image.name record = .ok name := by
  cases listed with
  | directory named _ _ _ _ => exact ⟨_, named⟩
  | empty named _ _ _ => exact ⟨_, named⟩
  | file named _ _ _ _ => exact ⟨_, named⟩

/-- What is listed can be read, but for files with bytes and without blocks. -/
theorem Listed.readable_iff (sound : img.Sound) (listed : Listed img [(path, record)] own) :
    img.Readable record ↔ ¬ record.Hollow := by
  constructor
  · intro readable hollow
    obtain ⟨name, named⟩ := readable.named
    obtain ⟨data, content⟩ := readable.file hollow.file
    cases content.symm.trans (Image.fileData_of_hollow sound named hollow)
  · intro filled
    cases listed with
    | directory named is readable _ _ =>
      exact ⟨⟨_, named⟩, fun _ => ⟨_, readable⟩,
        fun file => absurd file (Image.not_isFile_of_isDirectory is)⟩
    | empty named is none _ =>
      refine ⟨⟨_, named⟩, fun directory => absurd directory is, fun file => ?_⟩
      have size : record.size = 0 := by
        by_contra some
        exact filled ⟨file, none, some⟩
      have stands := (Image.fileAt_iff_of_empty sound named file none).2 size
      exact ⟨_, (Image.decided_fileData sound record).eq_ok stands⟩
    | file named is _ readable _ =>
      exact ⟨⟨_, named⟩, fun directory => absurd directory is, fun _ => ⟨_, readable⟩⟩

/-- When a dump succeeds, every record that can be reached has a name and can be read, unless it is
that of a file with bytes and without blocks: the content of such a file is refused. -/
theorem readable_of_report {bytes : ByteArray} (succeeds : (report bytes).failure = none) :
    ∃ img, Image.ofBytes bytes = .ok img ∧ ∀ record, img.Reachable record →
      (∃ name, Image.name record = .ok name) ∧ (img.Readable record ↔ ¬ record.Hollow)
        ∧ (record.Hollow → img.fileData record = Image.corrupt record) := by
  obtain ⟨img, claimed, found, success⟩ := success_of_report succeeds
  have valid := (Image.opened_of_ofBytes success.opened).toValid
  refine ⟨img, success.opened, fun record reached => ?_⟩
  obtain ⟨path, own, listed⟩ := success.all.listed_of_reachable valid reached
  obtain ⟨name, named⟩ := listed.exists_name
  exact ⟨⟨name, named⟩, listed.readable_iff valid.toSound,
    Image.fileData_of_hollow valid.toSound named⟩

/-! ## A file without blocks for its bytes -/

/-- The record of a file of a hundred bytes and no blocks. -/
def hollowRecord : Record := sharedRecord [0x61] 100 0 0

theorem hollow_hollowRecord : hollowRecord.Hollow := ⟨rfl, rfl, by decide⟩

/-- Nothing but its table is claimed in an image that has only this file. -/
theorem success_hollow : Success (specimenBytes [hollowRecord] 0).toBuffer
    (specimen [hollowRecord] 0) [rootRegion (specimen [hollowRecord] 0) [hollowRecord]]
    [rootRegion (specimen [hollowRecord] 0) [hollowRecord]] := by
  have opened := ofBytes_specimen [hollowRecord] 0 (by decide) (by decide)
  have root := root_specimen [hollowRecord] 0 (by decide) (by decide)
  have all : Claimed (specimen [hollowRecord] 0) _ :=
    ⟨_, [], root, .empty rfl (by decide) rfl .nil, rfl⟩
  exact success_of_claimed opened all (List.pairwise_singleton _ _)

theorem readable_of_report_hollow :
    (report (specimenBytes [hollowRecord] 0).toBuffer).failure = none
      ∧ ∃ img, Image.ofBytes (specimenBytes [hollowRecord] 0).toBuffer = .ok img
        ∧ ∀ record, img.Reachable record →
          (∃ name, Image.name record = .ok name) ∧ (img.Readable record ↔ ¬ record.Hollow)
            ∧ (record.Hollow → img.fileData record = Image.corrupt record) :=
  ⟨success_hollow.ends, readable_of_report success_hollow.ends⟩

/-- A dump succeeds, and a record that can be reached cannot be read. -/
theorem report_passes_hollow :
    ∃ img record, Image.ofBytes (specimenBytes [hollowRecord] 0).toBuffer = .ok img
      ∧ (report (specimenBytes [hollowRecord] 0).toBuffer).failure = none
      ∧ img.Reachable record ∧ record.isFile ∧ img.fileData record = Image.corrupt record := by
  have opened := success_hollow.opened
  have sound := (Image.opened_of_ofBytes opened).toSound
  have root := root_specimen [hollowRecord] 0 (by decide) (by decide)
  have named : Image.name hollowRecord = .ok [0x61] := rfl
  exact ⟨_, hollowRecord, opened, success_hollow.ends, .root root List.mem_cons_self, rfl,
    Image.fileData_of_hollow sound named hollow_hollowRecord⟩

end Dump

end FlatImage
