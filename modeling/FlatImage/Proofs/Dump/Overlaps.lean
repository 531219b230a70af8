import FlatImage.Proofs.Dump.Claims
import FlatImage.Proofs.Dump.Lines
import FlatImage.Proofs.Dump.Sweep
import FlatImage.Proofs.Queries

/-!
# Overlaps in a dump

A dump fails when two claims start at the same block. Claims that start at different blocks and have
blocks in common are no reason to fail: the dump goes on, and marks the place. The first of them to
be swept over is marked in any case, so that a dump without such a mark is one of an image whose
claims are disjoint.
-/

namespace FlatImage.Dump

variable {bytes : ByteArray} {img : Image} {pending : List (Path × Record)}
variable {claimed found : List Region}

/-! ## Claims have blocks -/

/-- A region has blocks, all of them behind the superblock. -/
structure Region.Placed (r : Region) : Prop where
  behind : 1 ≤ r.start.toNat
  some : 0 < r.count.toNat

/-- Directories and files of an opened image claim blocks behind the superblock. -/
theorem Listed.placed (valid : img.Valid) (past : 1 ≤ img.superblock.dataStart.toNat)
    (h : Listed img pending claimed) : ∀ r ∈ claimed, r.Placed := by
  induction h with
  | nil => exact fun _ => nofun
  | directory _ _ readable _ _ inner others =>
    obtain ⟨directory, _⟩ := (Image.decided_directory valid _).of_ok readable
    refine List.forall_mem_append.2 ⟨List.forall_mem_cons.2 ⟨⟨directory.table.behind, ?_⟩, inner⟩,
      others⟩
    rw [directory.count]
    exact Geometry.one_le_tableBlocks ..
  | empty _ _ _ _ others => exact others
  | file _ _ some readable _ others =>
    obtain ⟨file, _⟩ := (Image.decided_fileData valid.toSound _).of_ok readable
    have blocks : 0 < _ := Nat.pos_of_ne_zero fun none => some (UInt32.toNat_inj.1 none)
    -- A file without bytes would have no blocks.
    have filled := (Geometry.blocksFor_pos valid.pos).1 (file.count ▸ blocks)
    exact List.forall_mem_cons.2 ⟨⟨Nat.le_trans past (file.inside filled).1, blocks⟩, others⟩

/-- All claims of an opened image have blocks behind the superblock. -/
theorem Claimed.placed (valid : img.Valid) (all : Claimed img claimed) :
    ∀ r ∈ claimed, r.Placed := by
  obtain ⟨records, inner, root, listed, rfl⟩ := all
  obtain ⟨table, decoded⟩ := (Image.decided_table valid _ _).of_ok root
  have length : records.length = img.superblock.rootEntries.toNat := by
    rw [decoded, Record.length_decodeMany]
  have blocks := Geometry.one_le_tableBlocks records.length img.blockSize.toNat
  have few := Geometry.tableBlocks_lt valid.wide img.superblock.rootEntries
  rw [← length] at few
  refine List.forall_mem_cons.2 ⟨⟨table.behind, ?_⟩, listed.placed valid ?_⟩
  · rw [rootRegion, UInt32.toNat_ofNat_of_lt' few]
    exact blocks
  · exact Nat.le_trans table.behind (Nat.le_trans (Nat.le_add_right ..) table.before)

/-! ## Marks -/

/-- What a line that marks an overlap starts with. -/
def overlapMark : List Char := "*** Overlapping regions at block ".toList

/-- A line of the text marks an overlap. -/
def Marked (text : String) : Prop := ∃ line ∈ text.toList.splitOn '\n', overlapMark <+: line

/-- No line of a gap marks an overlap. -/
theorem not_mark_of_unassigned {start stop : Nat} {line : String}
    (mem : line ∈ [s!"*** Unassigned blocks {start}..{stop}", ""]) :
    ¬ overlapMark <+: line.toList := by
  intro marked
  simp only [List.mem_cons, List.not_mem_nil, or_false] at mem
  obtain rfl | rfl := mem
  · rw [String.append_assoc, String.append_assoc, String.toList_append] at marked
    obtain within | within := List.prefix_or_prefix_of_prefix marked (List.prefix_append _ _)
    · exact absurd within (by decide)
    · exact absurd within (by decide)
  · cases List.prefix_nil.1 marked

/-- A dump marks an overlap exactly when it has found one. -/
theorem marked_iff (opened : Image.ofBytes bytes = .ok img) (listed : regions img = .ok found) :
    Marked (report bytes).text ↔ ∃ block, .overlap block ∈ findings img found := by
  unfold Marked
  rw [splitOn_text opened listed]
  constructor
  · rintro ⟨characters, mem, marked⟩
    obtain mem | last := List.mem_append.1 mem
    · obtain ⟨line, own, rfl⟩ := List.mem_map.1 mem
      obtain ⟨f, among, body, unlisted⟩ := mark_of_starred own (starred_of_mark marked (by decide))
      cases f with
      | overlap block => exact ⟨block, among⟩
      | region r => exact absurd rfl (unlisted r)
      | gap _ _ | remainder _ _ => exact absurd marked (not_mark_of_unassigned body)
    · obtain rfl := List.mem_singleton.1 last
      cases List.prefix_nil.1 marked
  · rintro ⟨block, mem⟩
    have among : s!"*** Overlapping regions at block {block}"
        ∈ reportLines img bytes.size (findings img found) := by
      simp only [reportLines, List.mem_append, List.mem_flatMap]
      exact .inl (.inr ⟨_, mem, List.mem_cons_self⟩)
    refine ⟨_, List.mem_append_left _ (List.mem_map_of_mem among), ?_⟩
    rw [String.toList_append]
    exact List.prefix_append _ _

/-! ## What a dump says about overlaps -/

/-- A dump of an image with regions marks no overlap exactly when no two of them have a block in
common. -/
theorem not_marked_iff (opened : Image.ofBytes bytes = .ok img)
    (listed : regions img = .ok found) (all : Claimed img claimed) (perm : found.Perm claimed)
    (ascending : found.Pairwise fun a b => a.start < b.start) :
    ¬ Marked (report bytes).text ↔ claimed.Pairwise Region.Disjoint := by
  have placed := all.placed (Image.opened_of_ofBytes opened).toValid
  have own : ∀ r ∈ found, r.Placed := fun r mem => placed r (perm.mem_iff.1 mem)
  rw [marked_iff opened listed, not_exists, ← perm.pairwise_iff Region.Disjoint.symm,
    pairwise_disjoint_iff (fun r mem => (own r mem).some) ascending]
  refine forall_overlap_notMem_sweep.trans ?_
  exact and_iff_right fun r mem => (own r mem).behind

/-- A dump succeeds exactly for images whose claims can all be read and start at blocks of their
own. It then marks an overlap exactly when two of these claims have a block in common. -/
theorem failure_report_eq_none_iff (bytes : ByteArray) : (report bytes).failure = none
    ↔ ∃ img claimed, Image.ofBytes bytes = .ok img ∧ Claimed img claimed
      ∧ (claimed.map Region.start).Nodup
      ∧ (Marked (report bytes).text ↔ ¬ claimed.Pairwise Region.Disjoint) := by
  constructor
  · intro succeeds
    cases opened : Image.ofBytes bytes with
    | error e =>
      simp only [report, opened] at succeeds
      cases succeeds
    | ok img =>
      cases listed : regions img with
      | error e =>
        simp only [report, opened, listed] at succeeds
        cases succeeds
      | ok found =>
        obtain ⟨claimed, all, perm, ascending⟩ := claimed_of_regions listed
        refine ⟨img, claimed, rfl, all, ?_, ?_⟩
        · exact ((perm.map Region.start).nodup_iff).1 (nodup_of_ascending ascending)
        · rw [← not_marked_iff opened listed all perm ascending, not_not]
  · rintro ⟨img, claimed, opened, all, apart, _⟩
    obtain ⟨found, listed, _⟩ := regions_of_claimed all apart
    rw [report_eq opened listed]

/-! ## Files that share a block -/

/-- The header of an image of two files with three blocks between them. -/
def sharedHeader : Superblock :=
  { Superblock.smallest with totalBlocks := 5, rootEntries := 2, entryCount := 2 }

/-- The record of a file in the root directory. -/
def sharedRecord (name : Bytes) (size start count : UInt32) : Record where
  kind := Record.fileKind
  nameLength := UInt8.ofNat name.length
  reserved := 0
  size := size
  start := start
  count := count
  parent := 1
  mtime := 0
  nameField := Record.padName name

/-- A file of two blocks, and a file of one block that is the second one of the other file. -/
def sharedRecords : List Record :=
  [sharedRecord [0x61] 1024 2 2, sharedRecord [0x62] 512 3 1]

def sharedBytes : Bytes :=
  Bytes.padTo 512 sharedHeader.encode ++ Bytes.padTo 512 (Record.encodeMany sharedRecords)
    ++ List.replicate 1024 0x78 ++ List.replicate 512 0x79

def sharedImage : Image := ⟨sharedBytes.toBuffer, sharedHeader, 512⟩

theorem length_sharedHeader : (Bytes.padTo 512 sharedHeader.encode).length = 512 :=
  Bytes.length_padTo_of_le (by rw [Superblock.length_encode]; decide)

theorem ofBytes_sharedBytes : Image.ofBytes sharedBytes.toBuffer = .ok sharedImage := by
  have table : (Bytes.padTo 512 (Record.encodeMany sharedRecords)).length = 512 :=
    Bytes.length_padTo_of_le (by rw [Record.length_encodeMany]; decide)
  have length : sharedBytes.length = 2560 := by
    simp only [sharedBytes, List.length_append, length_sharedHeader, table, List.length_replicate]
  have all : sharedBytes.At 0 sharedBytes := List.prefix_rfl
  have shifted : sharedHeader.blockSize? = some 512 := by decide
  exact Image.ofBytes_of_regions all.left.left.left.of_padTo rfl rfl shifted (by decide)
    ⟨length, rfl, by decide, by decide, by decide⟩

theorem root_sharedImage (sound : sharedImage.Sound) : sharedImage.root = .ok sharedRecords := by
  have all : sharedBytes.At 0 sharedBytes := List.prefix_rfl
  have behind := all.left.left.right
  rw [length_sharedHeader] at behind
  exact Image.table_of_at sound rfl (by decide) (by decide) behind.of_padTo

/-- Two files share a block, and the dump does not fail. -/
theorem report_sharedBytes : ∃ img claimed, Image.ofBytes sharedBytes.toBuffer = .ok img
    ∧ Claimed img claimed ∧ ¬ claimed.Pairwise Region.Disjoint
    ∧ (report sharedBytes.toBuffer).failure = none := by
  have opened := ofBytes_sharedBytes
  have valid := (Image.opened_of_ofBytes opened).toValid
  have first : sharedImage.FileAt (sharedRecord [0x61] 1024 2 2) :=
    ⟨by decide, rfl, by decide, fun _ => by decide⟩
  have second : sharedImage.FileAt (sharedRecord [0x62] 512 3 1) :=
    ⟨by decide, rfl, by decide, fun _ => by decide⟩
  have listed : Listed sharedImage (sharedRecords.map (rootPath, ·)) _ :=
    .file rfl (by decide) (by decide) ((Image.decided_fileData valid.toSound _).eq_ok first)
      (.file rfl (by decide) (by decide) ((Image.decided_fileData valid.toSound _).eq_ok second)
        .nil)
  have claimed : Claimed sharedImage _ := ⟨_, _, root_sharedImage valid.toSound, listed, rfl⟩
  obtain ⟨found, run, _⟩ := regions_of_claimed claimed (by decide)
  refine ⟨_, _, opened, claimed, ?_, by rw [report_eq opened run]⟩
  intro disjoint
  -- Block three belongs to both files.
  have apart := (List.pairwise_cons.1 (List.pairwise_cons.1 disjoint).2).1 _ List.mem_cons_self
  exact apart 3 ⟨⟨by decide, by decide⟩, ⟨by decide, by decide⟩⟩

end FlatImage.Dump
