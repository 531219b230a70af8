import FlatImage.Proofs.Dump.Overlaps

/-!
# Crafted images

Images of blocks of 512 bytes with one block of records, whatever these records say. They are
opened, and their root directory has the records.
-/

namespace FlatImage.Dump

/-- The header of an image with one block of records, and more blocks behind it. -/
def specimenHeader (records : List Record) (behind : Nat) : Superblock :=
  { Superblock.smallest with
    totalBlocks := UInt32.ofNat (2 + behind)
    rootEntries := UInt32.ofNat records.length
    entryCount := UInt32.ofNat records.length }

/-- Its bytes, with zeros in the blocks behind the records. -/
def specimenBytes (records : List Record) (behind : Nat) : Bytes :=
  Bytes.padTo 512 (specimenHeader records behind).encode
    ++ Bytes.padTo 512 (Record.encodeMany records) ++ List.replicate (behind * 512) 0

def specimen (records : List Record) (behind : Nat) : Image :=
  ⟨(specimenBytes records behind).toBuffer, specimenHeader records behind, 512⟩

variable {records : List Record} {behind : Nat}

theorem length_front_specimen :
    (Bytes.padTo 512 (specimenHeader records behind).encode).length = 512 :=
  Bytes.length_padTo_of_le (by rw [Superblock.length_encode]; decide)

theorem length_specimenBytes (few : records.length ≤ 8) :
    (specimenBytes records behind).length = (2 + behind) * 512 := by
  have table : (Bytes.padTo 512 (Record.encodeMany records)).length = 512 :=
    Bytes.length_padTo_of_le (by
      rw [Record.length_encodeMany]
      exact Nat.mul_le_mul_right 64 few)
  rw [specimenBytes, List.length_append, List.length_append, length_front_specimen, table,
    List.length_replicate]
  omega

/-- One block holds the records. -/
theorem tableBlocks_of_few (few : records.length ≤ 8) :
    Geometry.tableBlocks records.length 512 ≤ 1 := by
  rw [Geometry.tableBlocks, Geometry.blocksFor, Geometry.recordSize]
  omega

/-- The numbers of the header are those of the image. -/
theorem regions_specimen (few : records.length ≤ 8) (small : 2 + behind < UInt32.size) :
    (specimenHeader records behind).Regions 512 (specimenBytes records behind).length := by
  have total : (UInt32.ofNat (2 + behind)).toNat = 2 + behind := UInt32.toNat_ofNat_of_lt' small
  have entries : (UInt32.ofNat records.length).toNat = records.length :=
    UInt32.toNat_ofNat_of_lt' (Nat.lt_of_le_of_lt few (by decide))
  refine ⟨?_, rfl, ?_, Nat.le_refl 1, ?_⟩
  · rw [length_specimenBytes few, specimenHeader, total]
  · change 2 ≤ (UInt32.ofNat (2 + behind)).toNat
    omega
  · change 1 + Geometry.tableBlocks (UInt32.ofNat records.length).toNat 512 ≤ 2
    rw [entries]
    exact Nat.add_le_add_left (tableBlocks_of_few few) 1

theorem ofBytes_specimen (records : List Record) (behind : Nat)
    (few : records.length ≤ 8) (small : 2 + behind < UInt32.size) :
    Image.ofBytes (specimenBytes records behind).toBuffer = .ok (specimen records behind) := by
  have all : (specimenBytes records behind).At 0 (specimenBytes records behind) := List.prefix_rfl
  have shifted : (specimenHeader records behind).blockSize? = some 512 := rfl
  refine Image.ofBytes_of_regions ?_ rfl rfl shifted (by decide) ?_
  · rw [Bytes.ofBuffer_toBuffer]
    exact all.left.left.of_padTo
  · rw [Bytes.size_toBuffer]
    exact regions_specimen few small

theorem root_specimen (records : List Record) (behind : Nat)
    (few : records.length ≤ 8) (small : 2 + behind < UInt32.size) :
    (specimen records behind).root = .ok records := by
  have sound := (Image.opened_of_ofBytes (ofBytes_specimen _ _ few small)).toSound
  have entries : (UInt32.ofNat records.length).toNat = records.length :=
    UInt32.toNat_ofNat_of_lt' (Nat.lt_of_le_of_lt few (by decide))
  have all : (specimenBytes records behind).At 0 (specimenBytes records behind) := List.prefix_rfl
  have stands := all.left.right
  rw [length_front_specimen, Nat.zero_add] at stands
  refine Image.table_of_at sound entries (Nat.le_refl 1) ?_ ?_
  · exact Nat.add_le_add_left (tableBlocks_of_few few) 1
  · change (specimenBytes records behind).At ((1 : UInt32).toNat * (512 : UInt32).toNat) _
    exact stands.of_padTo

end FlatImage.Dump
