import FlatImage.Proofs.BlockSize
import FlatImage.Proofs.Format

/-!
# Shifts and block sizes

A block size and its shift stand for each other, with one exception: a shift of 23 to 31 loses all
bits of the size, and stands for blocks of no bytes. The other shifts from four on stand for no
size, and bytes whose header has one are refused with it. With blocks of no bytes the length cannot
agree with the header, so these bytes are refused as well, but for their length. Nothing else is
ever computed with a size that is not one of the four.
-/

namespace FlatImage

namespace Geometry

variable {shift : UInt8} {size : UInt32}

/-- A shift whose amount is less than 32 and that leaves none of the bits of a size. -/
def Lost (shift : UInt8) : Prop := 23 ≤ shift ∧ shift < 32

instance (shift : UInt8) : Decidable (Lost shift) := inferInstanceAs (Decidable (_ ∧ _))

/-- The only bit of the smallest size is the tenth, and 23 more are all that there are. -/
theorem shifted_eq_zero_iff (few : shift < 32) :
    smallestBlock <<< shift.toUInt32 = 0 ↔ Lost shift := by
  have bits : 512 * 2 ^ shift.toNat = 2 ^ (9 + shift.toNat) := (Nat.pow_add 2 9 _).symm
  rw [← UInt32.toNat_inj, toNat_shifted (UInt8.lt_iff_toNat_lt.1 few), bits, UInt32.toNat_zero,
    ← Nat.dvd_iff_mod_eq_zero, Nat.pow_dvd_pow_iff_le_right (by decide), Lost,
    and_iff_left few, UInt8.le_iff_toNat_le]
  exact Nat.add_le_add_iff_left (n := 9) (m := 23)

/-- The shifts of blocks of no bytes. -/
theorem ofShift?_eq_zero_iff : ofShift? shift = some 0 ↔ Lost shift := by
  rw [ofShift?]
  by_cases few : shift < 32
  · rw [if_pos few, ← shifted_eq_zero_iff few]
    constructor
    · intro found
      dsimp only at found
      split at found
      · exact Option.some.inj found
      · cases found
    · intro lost
      simp only [lost]
      rfl
  · rw [if_neg few]
    exact iff_of_false (Option.some_ne_none 0).symm fun lost => few lost.2

/-- A shift stands for the size whose shift it is, or it is lost and stands for none. -/
theorem ofShift?_eq_some_iff :
    ofShift? shift = some size ↔ shiftOf? size = some shift ∨ Lost shift ∧ size = 0 := by
  constructor
  · intro found
    by_cases none : size = 0
    · rw [none] at found
      exact .inr ⟨ofShift?_eq_zero_iff.1 found, none⟩
    · have pos : 0 < size.toNat := Nat.pos_of_ne_zero fun zero => none (UInt32.toNat_inj.1 zero)
      obtain ⟨small, bytes⟩ := toNat_of_ofShift?_of_pos found pos
      refine .inl (shiftOf?_eq_some_iff.2 ?_)
      have few : shift.toNat ≤ 3 := UInt8.le_iff_toNat_le.1 small
      have pairs : (shift.toNat = 0 ∨ shift.toNat = 1 ∨ shift.toNat = 2 ∨ shift.toNat = 3) := by
        omega
      simp only [← UInt32.toNat_inj, ← UInt8.toNat_inj, bytes]
      obtain e | e | e | e := pairs <;> rw [e] <;> decide
  · rintro (own | ⟨lost, rfl⟩)
    · exact ofShift?_of_shiftOf? own
    · exact ofShift?_eq_zero_iff.2 lost

theorem le_of_shiftOf? (own : shiftOf? size = some shift) : shift ≤ 3 := by
  obtain ⟨_, rfl⟩ | ⟨_, rfl⟩ | ⟨_, rfl⟩ | ⟨_, rfl⟩ := shiftOf?_eq_some_iff.1 own <;> decide

theorem ofShift?_eq_none_iff : ofShift? shift = none ↔ 3 < shift ∧ ¬ Lost shift := by
  constructor
  · intro nothing
    refine ⟨UInt8.not_le.1 fun small => ?_, fun lost => ?_⟩
    · obtain ⟨size, found, _⟩ := ofShift?_of_le small
      cases nothing.symm.trans found
    · cases nothing.symm.trans (ofShift?_eq_zero_iff.2 lost)
  · rintro ⟨large, kept⟩
    refine Option.eq_none_iff_forall_ne_some.2 fun size found => ?_
    obtain own | ⟨lost, _⟩ := ofShift?_eq_some_iff.1 found
    · exact UInt8.not_le.2 large (le_of_shiftOf? own)
    · exact kept lost

end Geometry

namespace Fault

variable {ε α β : Type} {fault : Fault ε}

/-- What fails step by step fails in one of its steps. -/
theorem of_bind_error {m : Except (Fault ε) α} {f : α → Except (Fault ε) β}
    (failed : m >>= f = .error fault) : m = .error fault ∨ ∃ a, m = .ok a ∧ f a = .error fault := by
  cases m with
  | error e => exact .inl (congrArg Except.error (Except.error.inj failed))
  | ok a => exact .inr ⟨a, rfl, failed⟩

theorem of_demand_error {found : Option α} (failed : demand found = .error fault) :
    fault = .abort := by
  cases found with
  | none => exact (Except.error.inj failed).symm
  | some a => cases failed

end Fault

/-- Enough bytes that start with the signature, the version and a shift start with a superblock that
has them. -/
theorem Superblock.exists_of_front {bytes : Bytes} {shift : UInt8} (enough : 64 ≤ bytes.length)
    (front : signature.toList ++ [currentVersion, shift] <+: bytes) :
    ∃ sb : Superblock, sb.encode <+: bytes ∧ sb.magic = signature ∧ sb.version = currentVersion
      ∧ sb.blockShift = shift := by
  have length : (bytes.take 64).length = 64 := by
    rw [List.length_take]
    omega
  obtain ⟨sb, whole⟩ : ∃ sb : Superblock, sb.encode = bytes.take 64 :=
    ⟨_, encode_decode length⟩
  have stored := encode_eq_iff.1 whole
  obtain ⟨rest, rfl⟩ := front
  refine ⟨sb, whole ▸ List.take_prefix .., ?_, ?_, ?_⟩
  · exact Vector.toList_inj.1 stored.magic.symm
  · exact (Option.some.inj stored.version).symm
  · exact (Option.some.inj stored.blockShift).symm

namespace Image

variable {img : Image} {bytes : ByteArray} {sb : Superblock} {size : UInt32} {shift : UInt8}

/-- A header whose shift stands for no size is refused with the shift. -/
theorem ofBytes_of_no_size (stands : sb.encode <+: Bytes.ofBuffer bytes)
    (magic : sb.magic = Superblock.signature) (version : sb.version = Superblock.currentVersion)
    (nothing : sb.blockSize? = none) :
    ofBytes bytes = Fault.fail (.invalidBlockShift sb.blockShift) := by
  simp only [ofBytes_eq, Superblock.ofStart?_take stands, nothing]
  rw [if_neg (not_not.2 magic), if_neg (not_not.2 version)]

theorem blocks_eq_error {start count : UInt32} {fault : Fault ImageError}
    (refused : img.blocks start count = .error fault) :
    fault = .abort ∨ fault = .error (.outOfBounds start count) := by
  rw [blocks] at refused
  dsimp only at refused
  split at refused
  · exact .inr (Except.error.inj refused).symm
  · exact .inl (Fault.of_demand_error refused)

/-- A table is only refused for where it lies. -/
theorem table_eq_error {start entries : UInt32} {fault : Fault ImageError}
    (refused : img.table start entries = .error fault) :
    fault = .abort ∨ ∃ count, fault = .error (.outOfBounds start count) := by
  rw [table] at refused
  obtain wide | ⟨_, _, refused⟩ := Fault.of_bind_error refused
  · rw [Fault.require] at wide
    split at wide
    · cases wide
    · exact .inl (Except.error.inj wide).symm
  · dsimp only at refused
    split at refused
    · exact .inr ⟨_, (Except.error.inj refused).symm⟩
    · obtain outside | ⟨_, _, refused⟩ := Fault.of_bind_error refused
      · exact (blocks_eq_error outside).imp_right fun e => ⟨_, e⟩
      · obtain short | ⟨_, _, refused⟩ := Fault.of_bind_error refused
        · exact .inl (Fault.of_demand_error short)
        · cases refused

/-- Once a shift stands for a size, nothing is said about the shift any more. -/
theorem ofHeader_ne_invalidBlockShift (told : UInt8) :
    ofHeader bytes sb size ≠ Fault.fail (.invalidBlockShift told) := by
  intro refused
  rw [ofHeader] at refused
  split at refused
  · cases refused
  · split at refused
    · cases refused
    · split at refused
      · cases refused
      · cases read : root ⟨bytes, sb, size⟩ with
        | ok records =>
          rw [read] at refused
          cases refused
        | error fault =>
          rw [read] at refused
          obtain rfl := Except.error.inj refused
          obtain stopped | ⟨count, outside⟩ := table_eq_error read
          · cases stopped
          · cases outside

/-- Blocks of no bytes make an image of no bytes, and a header has some. -/
theorem ofHeader_of_no_bytes (stands : sb.encode <+: Bytes.ofBuffer bytes) :
    ofHeader bytes sb 0 = Fault.fail (.sizeMismatch 0 bytes.size) := by
  have other : bytes.size ≠ sb.totalBlocks.toNat * (0 : UInt32).toNat := fun length =>
    Nat.lt_irrefl 0 (pos_of_length stands length)
  rw [ofHeader, if_pos other]
  rfl

/-- A shift stands for the size whose shift it is, and for blocks of no bytes when it loses all bits
of a size. Whatever else bytes hold behind a signature and a version, they are refused with their
shift exactly when it is greater than three and not such a one, and with such a one for their
length. Whatever is opened has blocks of one of the four sizes, and the shift of this size. -/
theorem ofBytes_shift (size : UInt32) (shift : UInt8) (bytes : ByteArray) :
    (Geometry.ofShift? shift = some size
      ↔ Geometry.shiftOf? size = some shift ∨ Geometry.Lost shift ∧ size = 0)
    ∧ (64 ≤ bytes.size →
      Superblock.signature.toList ++ [Superblock.currentVersion, shift] <+: Bytes.ofBuffer bytes →
        (∀ told, ofBytes bytes = Fault.fail (.invalidBlockShift told)
          ↔ told = shift ∧ 3 < shift ∧ ¬ Geometry.Lost shift)
        ∧ (Geometry.Lost shift → ofBytes bytes = Fault.fail (.sizeMismatch 0 bytes.size)))
    ∧ ∀ img, ofBytes bytes = .ok img →
      (img.blockSize = 512 ∨ img.blockSize = 1024 ∨ img.blockSize = 2048 ∨ img.blockSize = 4096)
        ∧ Geometry.shiftOf? img.blockSize = some img.superblock.blockShift := by
  refine ⟨Geometry.ofShift?_eq_some_iff, fun enough front => ?_, fun img opened => ?_⟩
  · obtain ⟨sb, stands, magic, version, rfl⟩ := Superblock.exists_of_front enough front
    refine ⟨fun told => ?_, fun lost => ?_⟩
    · cases shifted : sb.blockSize? with
      | none =>
        have large := Geometry.ofShift?_eq_none_iff.1 shifted
        rw [ofBytes_of_no_size stands magic version shifted]
        constructor
        · intro same
          cases same
          exact ⟨rfl, large⟩
        · rintro ⟨rfl, _⟩
          rfl
      | some size =>
        rw [ofBytes_eq_ofHeader stands magic version shifted]
        refine iff_of_false (ofHeader_ne_invalidBlockShift told) fun large => ?_
        cases shifted.symm.trans (Geometry.ofShift?_eq_none_iff.2 large.2)
    · rw [ofBytes_eq_ofHeader stands magic version (Geometry.ofShift?_eq_zero_iff.2 lost)]
      exact ofHeader_of_no_bytes stands
  · obtain ⟨sb, size, stands, shifted, regions, rfl⟩ := exists_header_of_ofBytes opened
    have pos := pos_of_length stands regions.length
    obtain own | ⟨_, rfl⟩ := Geometry.ofShift?_eq_some_iff.1 shifted
    · exact ⟨Geometry.isSome_shiftOf?_iff.1 (Option.isSome_of_eq_some own), own⟩
    · exact absurd pos (Nat.lt_irrefl 0)

/-- The header of an image without entries, with another shift. -/
def withShift (shift : UInt8) : Superblock := { Superblock.smallest with blockShift := shift }

def shiftedBytes (shift : UInt8) : ByteArray := (Bytes.padTo 1024 (withShift shift).encode).toBuffer

theorem front_shiftedBytes (shift : UInt8) :
    Superblock.signature.toList ++ [Superblock.currentVersion, shift]
      <+: Bytes.ofBuffer (shiftedBytes shift) := ⟨_, rfl⟩

theorem size_shiftedBytes (shift : UInt8) : (shiftedBytes shift).size = 1024 :=
  Bytes.length_padTo_of_le (by rw [Superblock.length_encode]; decide)

/-- The shift four is told, and the shift 32 as well. -/
theorem ofBytes_shift_four :
    ofBytes (shiftedBytes 4) = Fault.fail (.invalidBlockShift 4)
      ∧ ofBytes (shiftedBytes 32) = Fault.fail (.invalidBlockShift 32) := by
  have told (shift : UInt8) := ((ofBytes_shift 0 shift (shiftedBytes shift)).2.1
    (by rw [size_shiftedBytes]; decide) (front_shiftedBytes shift)).1 shift
  exact ⟨(told 4).2 (by decide), (told 32).2 (by decide)⟩

/-- A shift of 23 stands for a size that has no shift, and is not told. -/
theorem ofBytes_shift_lost :
    Geometry.ofShift? 23 = some 0 ∧ Geometry.shiftOf? 0 = none
      ∧ ofBytes (shiftedBytes 23) = Fault.fail (.sizeMismatch 0 1024) := by
  have stands : (withShift 23).encode <+: Bytes.ofBuffer (shiftedBytes 23) :=
    List.prefix_append _ _
  have refused := ofHeader_of_no_bytes stands
  rw [size_shiftedBytes] at refused
  refine ⟨by decide, by decide, ?_⟩
  rw [ofBytes_eq_ofHeader stands rfl rfl (Geometry.ofShift?_eq_zero_iff.2 (by decide))]
  exact refused

end Image

end FlatImage
