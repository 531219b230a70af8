import FlatImage.Image
import FlatImage.Proofs.Patch

/-!
# Reading what stands in an image

When the records of a table stand at the place that the reader is given, the reader finds exactly
them, and the same holds for the content of a file. What stands where is said on the list of all
bytes: `Bytes.At`.
-/

namespace FlatImage

/-- A piece stands at an offset of a content. -/
def Bytes.At (content : Bytes) (offset : Nat) (piece : Bytes) : Prop :=
  piece <+: content.drop offset

namespace Bytes.At

variable {content first second piece : Bytes} {offset : Nat}

theorem left (h : content.At offset (first ++ second)) : content.At offset first :=
  (List.prefix_append first second).trans h

theorem right (h : content.At offset (first ++ second)) :
    content.At (offset + first.length) second := by
  obtain ⟨rest, all⟩ := h
  refine ⟨rest, ?_⟩
  rw [← List.drop_drop, ← all, List.append_assoc, List.drop_left]

/-- What was filled up stands where the whole does. -/
theorem of_padTo {n : Nat} (h : content.At offset (padTo n piece)) : content.At offset piece :=
  h.left

theorem take_eq (h : content.At offset piece) :
    (content.drop offset).take piece.length = piece :=
  (List.prefix_iff_eq_take.1 h).symm

end Bytes.At

namespace Image

variable {img : Image}

/-- The header of an image agrees with its bytes. -/
structure Sound (img : Image) : Prop where
  pos : 0 < img.blockSize.toNat
  data_le : img.superblock.dataStart.toNat ≤ img.superblock.totalBlocks.toNat
  size : img.bytes.size = img.superblock.totalBlocks.toNat * img.blockSize.toNat

/-- Blocks within an image are found, and start with what stands at the first of them. -/
theorem blocks_of_at (sound : img.Sound) (start count : UInt32) {piece : Bytes}
    (inside : start.toNat + count.toNat ≤ img.superblock.totalBlocks.toNat)
    (stands : (Bytes.ofBuffer img.bytes).At (start.toNat * img.blockSize.toNat) piece)
    (short : piece.length ≤ count.toNat * img.blockSize.toNat) :
    ∃ found used, img.blocks start count = .ok found
      ∧ Buffer.slice? found 0 piece.length = some used ∧ Bytes.ofBuffer used = piece := by
  have whole : (start.toNat + count.toNat) * img.blockSize.toNat ≤ img.bytes.size := by
    rw [sound.size]
    exact Nat.mul_le_mul_right _ inside
  have ordered : start.toNat * img.blockSize.toNat
      ≤ (start.toNat + count.toNat) * img.blockSize.toNat :=
    Nat.mul_le_mul_right _ (Nat.le_add_right ..)
  have limit := img.superblock.totalBlocks.toNat_lt
  generalize taken : img.bytes.extract (start.toNat * img.blockSize.toNat)
    ((start.toNat + count.toNat) * img.blockSize.toNat) = found
  have bytes : Bytes.ofBuffer found
      = ((Bytes.ofBuffer img.bytes).drop (start.toNat * img.blockSize.toNat)).take
        (count.toNat * img.blockSize.toNat) := by
    rw [← taken, Buffer.ofBuffer_extract, List.drop_take, Nat.add_mul, Nat.add_sub_cancel_left]
  have long : piece.length ≤ found.size := by
    rw [← Buffer.length_ofBuffer, bytes, List.length_take]
    exact Nat.le_min.2 ⟨short, stands.length_le⟩
  refine ⟨found, found.extract 0 piece.length, ?_, ?_, ?_⟩
  · simp only [blocks]
    rw [if_neg (by simp only [UInt32.size]; omega), Buffer.slice?, if_pos ⟨ordered, whole⟩, taken]
    rfl
  · rw [Buffer.slice?, if_pos ⟨Nat.zero_le _, long⟩]
  · rw [Buffer.ofBuffer_extract, List.drop_zero, bytes, List.take_take, Nat.min_eq_left short,
      stands.take_eq]

theorem table_eq_ok (sound : img.Sound) {start entries : UInt32} (behind : 1 ≤ start.toNat)
    (inside : start.toNat + Geometry.tableBlocks entries.toNat img.blockSize.toNat
      ≤ img.superblock.dataStart.toNat) :
    img.table start entries = .ok (Record.decodeMany entries.toNat
      (((Bytes.ofBuffer img.bytes).drop (start.toNat * img.blockSize.toNat)).take
        (entries.toNat * Geometry.recordSize))) := by
  have limit := img.superblock.dataStart.toNat_lt
  have few : Geometry.tableBlocks entries.toNat img.blockSize.toNat < UInt32.size := by
    simp only [UInt32.size]
    omega
  have count : (UInt32.ofNat (Geometry.tableBlocks entries.toNat img.blockSize.toNat)).toNat
      = Geometry.tableBlocks entries.toNat img.blockSize.toNat := UInt32.toNat_ofNat_of_lt' few
  have fits : entries.toNat * Geometry.recordSize
      ≤ Geometry.tableBlocks entries.toNat img.blockSize.toNat * img.blockSize.toNat :=
    Geometry.le_tableBlocks_mul sound.pos
  have capacity : entries.toNat ≤ Geometry.tableCapacity
      (Geometry.tableBlocks entries.toNat img.blockSize.toNat) img.blockSize.toNat :=
    (Nat.le_div_iff_mul_le (by decide)).2 fits
  have room := Nat.mul_le_mul_right img.blockSize.toNat (Nat.le_trans inside sound.data_le)
  have length : (((Bytes.ofBuffer img.bytes).drop (start.toNat * img.blockSize.toNat)).take
      (entries.toNat * Geometry.recordSize)).length = entries.toNat * Geometry.recordSize := by
    rw [Nat.add_mul, ← sound.size] at room
    rw [List.length_take, List.length_drop, Buffer.length_ofBuffer]
    omega
  obtain ⟨found, used, blocks, slice, bytes⟩ := blocks_of_at sound start
    (UInt32.ofNat (Geometry.tableBlocks entries.toNat img.blockSize.toNat))
    (by rw [count]; exact Nat.le_trans inside sound.data_le)
    (List.take_prefix (entries.toNat * Geometry.recordSize) _) (by rwa [count, length])
  rw [length] at slice
  have bounds : ¬ (start = 0 ∨ img.superblock.dataStart.toNat
        < min (start.toNat + Geometry.tableBlocks entries.toNat img.blockSize.toNat)
          (UInt32.size - 1)
      ∨ Geometry.tableCapacity (Geometry.tableBlocks entries.toNat img.blockSize.toNat)
        img.blockSize.toNat < entries.toNat) := by
    rintro (rfl | past | less)
    · exact absurd behind (by decide)
    · omega
    · omega
  simp only [table, count, decide_eq_true few, Fault.require_true]
  rw [Fault.ok_bind, if_neg bounds, blocks, Fault.ok_bind, slice, Fault.demand_some,
    Fault.ok_bind, bytes]
  rfl

/-- A table within its region is read as the records that stand there. -/
theorem table_of_at (sound : img.Sound) {start entries : UInt32} {records : List Record}
    (length : entries.toNat = records.length) (behind : 1 ≤ start.toNat)
    (inside : start.toNat + Geometry.tableBlocks records.length img.blockSize.toNat
      ≤ img.superblock.dataStart.toNat)
    (stands : (Bytes.ofBuffer img.bytes).At (start.toNat * img.blockSize.toNat)
      (Record.encodeMany records)) :
    img.table start entries = .ok records := by
  have taken := stands.take_eq
  rw [Record.length_encodeMany] at taken
  rw [← length] at inside
  rw [table_eq_ok sound behind inside, length, taken, Record.decodeMany_encodeMany]

/-- A record of an accepted name and a known kind gives back the name. -/
theorem name_of_padName {name : Bytes} {r : Record} (accepted : Name.check name = .ok ())
    (field : r.nameField = Record.padName name) (length : r.nameLength = UInt8.ofNat name.length)
    (known : r.isDirectory ∨ r.isFile) : Image.name r = .ok name := by
  obtain ⟨wellFormed, short⟩ := Name.check_eq_ok_iff.1 accepted
  have whole : (UInt8.ofNat name.length).toNat = name.length := by
    apply UInt8.toNat_ofNat_of_lt'
    simp only [Geometry.nameCapacity] at short
    simp only [UInt8.size]
    omega
  have same : r.name = name := by
    rw [Record.name, field, length, whole, Record.take_padName short]
  have text : Utf8.valid name = true := by
    simp only [Name.wellFormed, Bool.and_eq_true] at wellFormed
    exact wellFormed.1.1.1.1.1
  have kind : (!r.isDirectory && !r.isFile) = false := by
    obtain directory | file := known
    · rw [directory]
      rfl
    · rw [file, Bool.not_true, Bool.and_false]
  simp only [Image.name, same, text, kind]
  rfl

/-- A directory's record leads to the records of its table. -/
theorem directory_of_at (sound : img.Sound) {r : Record} {name : Bytes} {records : List Record}
    (named : Image.name r = .ok name) (kind : r.isDirectory)
    (size : r.size.toNat = records.length * Geometry.recordSize)
    (count : r.count.toNat = Geometry.tableBlocks records.length img.blockSize.toNat)
    (behind : 1 ≤ r.start.toNat)
    (inside : r.start.toNat + r.count.toNat ≤ img.superblock.dataStart.toNat)
    (stands : (Bytes.ofBuffer img.bytes).At (r.start.toNat * img.blockSize.toNat)
      (Record.encodeMany records)) :
    img.directory r = .ok records := by
  have entries : r.size.toNat / Geometry.recordSize = records.length := by
    rw [size, Nat.mul_div_cancel _ (by decide)]
  have sane : ¬ (!r.isDirectory ∨ r.size.toNat % Geometry.recordSize ≠ 0) := by
    rw [kind, size, Nat.mul_mod_left]
    decide
  have length : (UInt32.ofNat records.length).toNat = records.length := by
    have small := r.size.toNat_lt
    rw [size] at small
    simp only [Geometry.recordSize] at small
    apply UInt32.toNat_ofNat_of_lt'
    simp only [UInt32.size]
    omega
  rw [count] at inside
  simp only [directory, named, entries]
  rw [Fault.ok_bind, if_neg sane, if_neg (not_not_intro count)]
  exact table_of_at sound length behind inside stands

theorem fileData_of_at (sound : img.Sound) {r : Record} {name : Bytes} (data : Bytes)
    (named : Image.name r = .ok name) (kind : r.isFile)
    (size : r.size.toNat = data.length)
    (count : r.count.toNat = Geometry.blocksFor data.length img.blockSize.toNat)
    (inside : data ≠ [] → img.superblock.dataStart.toNat ≤ r.start.toNat
      ∧ r.start.toNat + r.count.toNat ≤ img.superblock.totalBlocks.toNat
      ∧ (Bytes.ofBuffer img.bytes).At (r.start.toNat * img.blockSize.toNat) data) :
    ∃ content, img.fileData r = .ok content ∧ Bytes.ofBuffer content = data := by
  have fits : ¬ (!r.isFile
      ∨ r.count.toNat ≠ Geometry.blocksFor r.size.toNat img.blockSize.toNat) := by
    rw [kind, count, size]
    simp
  simp only [fileData, named]
  rw [Fault.ok_bind, if_neg fits]
  by_cases none : data = []
  · have zero : r.size = 0 := by
      apply UInt32.toNat_inj.1
      rw [size, none]
      rfl
    rw [if_pos zero]
    exact ⟨.empty, rfl, none.symm⟩
  · have some : r.size ≠ 0 := by
      intro zero
      rw [zero] at size
      exact none (List.length_eq_zero_iff.1 size.symm)
    obtain ⟨behind, before, stands⟩ := inside none
    obtain ⟨found, used, blocks, slice, bytes⟩ := blocks_of_at sound r.start r.count before stands
      (by rw [count]; exact Geometry.le_blocksFor_mul sound.pos)
    rw [if_neg some, if_neg (UInt32.not_lt.2 (UInt32.le_iff_toNat_le.2 behind)), blocks,
      Fault.ok_bind, size, slice]
    exact ⟨used, rfl, bytes⟩

end Image

end FlatImage
