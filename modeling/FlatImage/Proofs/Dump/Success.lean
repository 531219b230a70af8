import FlatImage.Proofs.Dump.Overlaps

/-!
# What a successful dump has found

A dump succeeds when all claims of an image could be read and start at blocks of their own. Each of
them then has blocks, ends within the image, and has room for what its owner uses, so that no number
that a dump computes from it leaves its type.
-/

namespace FlatImage.Dump

variable {bytes : ByteArray} {img : Image} {pending : List (Path × Record)}
variable {claimed found : List Region}

/-- A region lies behind the superblock and within an image, and has room for what is used of it. -/
structure Region.Within (img : Image) (r : Region) : Prop extends r.Placed where
  inside : r.stop ≤ img.superblock.totalBlocks.toNat
  fits : r.used ≤ r.length img.blockSize.toNat

theorem Region.Within.stop_lt {r : Region} (within : r.Within img) : r.stop < UInt32.size :=
  Nat.lt_of_le_of_lt within.inside img.superblock.totalBlocks.toNat_lt

theorem Region.Within.start_lt_stop {r : Region} (within : r.Within img) :
    r.start.toNat < r.stop :=
  Nat.lt_add_of_pos_right within.some

/-- A table within its region holds its records. -/
theorem used_le_of_tableInside (valid : img.Valid) {start entries : Nat} {records : List Record}
    (table : img.TableInside start entries) (length : records.length = entries) {r : Region}
    (begins : r.start.toNat = start)
    (count : r.count.toNat = Geometry.tableBlocks entries img.blockSize.toNat)
    (holds : r.segment = .table records) :
    r.stop ≤ img.superblock.totalBlocks.toNat ∧ r.used ≤ r.length img.blockSize.toNat := by
  constructor
  · rw [Region.stop, begins, count]
    exact Nat.le_trans table.before valid.data_le
  · simp only [Region.used, holds, Region.length, count, length]
    exact Geometry.le_tableBlocks_mul valid.pos

/-- Directories and files of an opened image claim blocks of the image. -/
theorem Listed.inside (valid : img.Valid) (h : Listed img pending claimed) : ∀ r ∈ claimed,
    r.stop ≤ img.superblock.totalBlocks.toNat ∧ r.used ≤ r.length img.blockSize.toNat := by
  induction h with
  | nil => exact fun _ => nofun
  | directory _ _ readable _ _ inner others =>
    obtain ⟨directory, rfl⟩ := (Image.decided_directory valid _).of_ok readable
    exact List.forall_mem_append.2 ⟨List.forall_mem_cons.2
      ⟨used_le_of_tableInside valid directory.table (Record.length_decodeMany ..) rfl
        directory.count rfl, inner⟩, others⟩
  | empty _ _ _ _ others => exact others
  | file _ _ some readable _ others =>
    obtain ⟨file, _⟩ := (Image.decided_fileData valid.toSound _).of_ok readable
    have blocks : 0 < _ := Nat.pos_of_ne_zero fun none => some (UInt32.toNat_inj.1 none)
    have filled := (Geometry.blocksFor_pos valid.pos).1 (file.count ▸ blocks)
    exact List.forall_mem_cons.2 ⟨⟨(file.inside filled).2, file.short valid.toSound⟩, others⟩

/-- All claims of an opened image are blocks of it. -/
theorem Claimed.within (valid : img.Valid) (all : Claimed img claimed) :
    ∀ r ∈ claimed, r.Within img := by
  have placed := all.placed valid
  suffices inside : ∀ r ∈ claimed, r.stop ≤ img.superblock.totalBlocks.toNat
      ∧ r.used ≤ r.length img.blockSize.toNat from
    fun r mem => ⟨placed r mem, (inside r mem).1, (inside r mem).2⟩
  obtain ⟨records, inner, root, listed, rfl⟩ := all
  obtain ⟨table, decoded⟩ := (Image.decided_table valid _ _).of_ok root
  have length : records.length = img.superblock.rootEntries.toNat := by
    rw [decoded, Record.length_decodeMany]
  have few := Geometry.tableBlocks_lt valid.wide img.superblock.rootEntries
  rw [← length] at few table
  exact List.forall_mem_cons.2 ⟨used_le_of_tableInside valid table rfl rfl
    (UInt32.toNat_ofNat_of_lt' few) rfl, listed.inside valid⟩

/-- A dump of bytes succeeds: they are those of an image, and these are its claims, and the same
claims in the order of their starts. -/
structure Success (bytes : ByteArray) (img : Image) (claimed found : List Region) : Prop where
  opened : Image.ofBytes bytes = .ok img
  listed : regions img = .ok found
  all : Claimed img claimed
  perm : found.Perm claimed
  ascending : found.Pairwise fun a b => a.start < b.start

/-- A dump of an image whose claims are in the order of their starts succeeds. -/
theorem success_of_claimed (opened : Image.ofBytes bytes = .ok img) (all : Claimed img claimed)
    (ascending : claimed.Pairwise fun a b => a.start < b.start) :
    Success bytes img claimed claimed :=
  ⟨opened, regions_eq_ok_iff.2 ⟨_, all, .refl _, ascending⟩, all, .refl _, ascending⟩

namespace Success

variable (h : Success bytes img claimed found)

include h

theorem within : ∀ r ∈ claimed, r.Within img :=
  h.all.within (Image.opened_of_ofBytes h.opened).toValid

theorem found_within : ∀ r ∈ found, r.Within img :=
  fun r mem => h.within r (h.perm.mem_iff.1 mem)

theorem text : (report bytes).text = lines (reportLines img bytes.size (findings img found)) := by
  have text := congrArg Report.text (report_eq h.opened h.listed)
  dsimp only at text
  exact text

theorem ends : (report bytes).failure = none := by
  rw [report_eq h.opened h.listed]

end Success

/-- What a dump without a failure has found. -/
theorem success_of_report (succeeds : (report bytes).failure = none) :
    ∃ img claimed found, Success bytes img claimed found := by
  cases opened : Image.ofBytes bytes with
  | error e =>
    simp only [report, opened] at succeeds
    cases succeeds
  | ok img =>
    cases listed : regions img with
    | error e =>
      simp only [report, opened, listed] at succeeds
      cases succeeds
    | ok found =>
      obtain ⟨claimed, all, perm, ascending⟩ := claimed_of_regions listed
      exact ⟨img, claimed, found, opened, listed, all, perm, ascending⟩

end FlatImage.Dump
