import FlatImage.Proofs.Queries

/-!
# Which bytes stop the opening of an image

Of the sums and products that an opening makes of the numbers in a header, one can leave its type:
one more than the number of table blocks, which is where the contents should start. Whatever is
computed before it cannot, and whatever comes after it is bounded by the checks made until then. So
an opening gives an image or reports an error, unless that one number is the largest of its type.
-/

namespace FlatImage.Image

variable {bytes : ByteArray} {sb : Superblock} {blockSize : UInt32}

/-- What a header says is checked to the end, unless its number of table blocks is the largest
one. -/
theorem ofHeader_eq_abort_iff (stands : sb.encode <+: Bytes.ofBuffer bytes)
    (shifted : sb.blockSize? = some blockSize) :
    ofHeader bytes sb blockSize = .error .abort
      ↔ bytes.size = sb.totalBlocks.toNat * blockSize.toNat
        ∧ sb.metaBlocks.toNat + 1 = UInt32.size := by
  have limit : sb.metaBlocks.toNat < UInt32.size := sb.metaBlocks.toNat_lt
  rw [ofHeader]
  by_cases length : bytes.size = sb.totalBlocks.toNat * blockSize.toNat
  · rw [if_neg (not_not.2 length)]
    by_cases small : sb.metaBlocks.toNat + 1 < UInt32.size
    · rw [if_neg (not_not.2 small)]
      refine iff_of_false (fun stopped => ?_) fun h => Nat.ne_of_lt small h.2
      split at stopped
      · cases stopped
      · next bounds =>
        have pos := pos_of_length stands length
        have wide := Geometry.recordSize_le_of_ofShift? shifted pos
        have inside := UInt32.le_iff_toNat_le.1 (UInt32.not_lt.1 (not_or.1 bounds).2)
        have valid : Valid ⟨bytes, sb, blockSize⟩ := ⟨⟨pos, inside, length⟩, wide⟩
        cases read : root ⟨bytes, sb, blockSize⟩ with
        | ok records =>
          rw [read] at stopped
          cases stopped
        | error fault =>
          rw [read] at stopped
          obtain rfl := Except.error.inj stopped
          exact (decided_table valid _ _).ne_abort read
    · rw [if_pos small]
      have full : sb.metaBlocks.toNat + 1 = UInt32.size :=
        Nat.le_antisymm limit (Nat.le_of_not_lt small)
      exact iff_of_true rfl ⟨length, full⟩
  · rw [if_pos length]
    refine iff_of_false (fun stopped => ?_) fun h => length h.1
    cases stopped

/-- An opening stops exactly at bytes that are right up to the number of table blocks, and have the
largest one there. For all others it gives an image or reports an error. -/
theorem ofBytes_eq_abort_iff (bytes : ByteArray) :
    ofBytes bytes = .error .abort
      ↔ ∃ sb : Superblock, sb.encode <+: Bytes.ofBuffer bytes
        ∧ sb.magic = Superblock.signature ∧ sb.version = Superblock.currentVersion
        ∧ sb.blockShift ≤ 3
        ∧ bytes.size = sb.totalBlocks.toNat * (512 * 2 ^ sb.blockShift.toNat)
        ∧ sb.metaBlocks.toNat + 1 = UInt32.size := by
  constructor
  · intro stopped
    obtain ⟨sb, blockSize, stands, magic, version, shifted, same⟩ | ⟨e, refused⟩ :=
      ofHeader_or_refused bytes
    · rw [same, ofHeader_eq_abort_iff stands shifted] at stopped
      obtain ⟨length, full⟩ := stopped
      obtain ⟨shift, size⟩ :=
        Geometry.toNat_of_ofShift?_of_pos shifted (pos_of_length stands length)
      rw [size] at length
      exact ⟨sb, stands, magic, version, shift, length, full⟩
    · cases stopped.symm.trans refused
  · rintro ⟨sb, stands, magic, version, shift, length, full⟩
    obtain ⟨blockSize, shifted, size⟩ := Geometry.ofShift?_of_le shift
    rw [← size] at length
    rw [ofBytes_eq_ofHeader stands magic version shifted]
    exact (ofHeader_eq_abort_iff stands shifted).2 ⟨length, full⟩

/-- The header of an image without entries that claims as many table blocks as its field can
hold. -/
def crowded : Superblock := { Superblock.smallest with metaBlocks := 4294967295 }

theorem ofBytes_crowded :
    ofBytes (Bytes.padTo 1024 crowded.encode).toBuffer = .error .abort := by
  have length : (Bytes.padTo 1024 crowded.encode).length = 1024 :=
    Bytes.length_padTo_of_le (by rw [Superblock.length_encode]; decide)
  have shifted : crowded.blockSize? = some 512 := by decide
  rw [ofBytes_eq_ofHeader (List.prefix_append _ _) rfl rfl shifted]
  exact (ofHeader_eq_abort_iff (List.prefix_append _ _) shifted).2 ⟨length, rfl⟩

end FlatImage.Image
