import FlatImage.Image

/-!
# Opening an image

The checks of an image in the order in which they are made, each with what it answers.
-/

namespace FlatImage.Image

/-- What is left to check once a header with a block size was found. -/
def ofHeader (bytes : ByteArray) (sb : Superblock) (blockSize : UInt32) : Reading Image :=
  if bytes.size ≠ sb.totalBlocks.toNat * blockSize.toNat then
    Fault.fail (.sizeMismatch (sb.totalBlocks.toNat * blockSize.toNat) bytes.size)
  else if ¬ sb.metaBlocks.toNat + 1 < UInt32.size then .error .abort
  else if sb.dataStart ≠ 1 + sb.metaBlocks ∨ sb.totalBlocks < sb.dataStart then
    Fault.fail (.outOfBounds 1 sb.metaBlocks)
  else (root ⟨bytes, sb, blockSize⟩).map fun _ => ⟨bytes, sb, blockSize⟩

/-- An image is opened when its header is one, and everything that the header says is checked. -/
theorem ofBytes_eq (bytes : ByteArray) :
    ofBytes bytes = match Superblock.ofStart? ((Bytes.ofBuffer bytes).take Geometry.recordSize) with
      | none => Fault.fail .tooShort
      | some sb =>
        if sb.magic ≠ Superblock.signature then Fault.fail (.badMagic sb.magic)
        else if sb.version ≠ Superblock.currentVersion then
          Fault.fail (.unsupportedVersion sb.version)
        else match sb.blockSize? with
          | none => Fault.fail (.invalidBlockShift sb.blockShift)
          | some blockSize => ofHeader bytes sb blockSize := by
  have start : Bytes.ofBuffer (bytes.extract 0 Geometry.recordSize)
      = (Bytes.ofBuffer bytes).take Geometry.recordSize := by
    rw [Buffer.ofBuffer_extract, List.drop_zero]
  simp only [ofBytes, start]
  cases Superblock.ofStart? ((Bytes.ofBuffer bytes).take Geometry.recordSize) with
  | none => rfl
  | some sb =>
    simp only [Fault.ok_bind]
    by_cases magic : sb.magic ≠ Superblock.signature
    · rw [if_pos magic, if_pos magic]
      rfl
    · rw [if_neg magic, if_neg magic]
      by_cases version : sb.version ≠ Superblock.currentVersion
      · rw [if_pos version, if_pos version]
        rfl
      · rw [if_neg version, if_neg version]
        cases sb.blockSize? with
        | none => rfl
        | some blockSize =>
          simp only [ofHeader]
          by_cases size : bytes.size ≠ sb.totalBlocks.toNat * blockSize.toNat
          · rw [if_pos size, if_pos size]
            rfl
          · rw [if_neg size, if_neg size]
            by_cases blocks : sb.metaBlocks.toNat + 1 < UInt32.size
            · simp only [decide_eq_true blocks, Fault.require_true, Fault.ok_bind]
              rw [if_neg (not_not_intro blocks)]
              by_cases bounds : sb.dataStart ≠ 1 + sb.metaBlocks ∨ sb.totalBlocks < sb.dataStart
              · rw [if_pos bounds, if_pos bounds]
                rfl
              · rw [if_neg bounds, if_neg bounds]
                cases root ⟨bytes, sb, blockSize⟩ <;> rfl
            · simp only [decide_eq_false blocks]
              rw [if_pos blocks]
              rfl

/-- Bytes that start with zeros are not an image. -/
theorem ofBytes_of_blank {bytes : ByteArray}
    (blank : (Bytes.ofBuffer bytes).take Geometry.recordSize
      = List.replicate Geometry.recordSize 0) :
    ofBytes bytes = Fault.fail (.badMagic (Vector.replicate 8 0)) := by
  have header : Superblock.ofStart? (List.replicate Geometry.recordSize 0)
      = some (Superblock.decode (List.replicate Geometry.recordSize 0)) := rfl
  have magic : (Superblock.decode (List.replicate Geometry.recordSize 0)).magic
      = Vector.replicate 8 0 := by decide
  have other : Vector.replicate 8 0 ≠ Superblock.signature := by decide
  rw [ofBytes_eq, blank, header]
  simp only [magic, if_pos other]

end FlatImage.Image
