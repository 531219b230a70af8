import FlatImage.Image.Tables
import FlatImage.Proofs.Opening
import FlatImage.Proofs.Reading
import Mathlib.Algebra.GroupWithZero.Nat

/-!
# Which bytes are an image

Bytes are opened as an image exactly when they start with a superblock whose numbers fit together
and to the length. The numbers are compared without wrap-around here. That the checks are made in 32
bits, in which a shift can lose the whole block size and the end of a table can be cut off, lets
nothing else through.
-/

namespace FlatImage

namespace Geometry

variable {shift : UInt8}

/-- The size that a shift stands for, without the bits that leave 32 of them. -/
theorem toNat_shifted (few : shift.toNat < 32) :
    (smallestBlock <<< shift.toUInt32).toNat = 512 * 2 ^ shift.toNat % 2 ^ 32 := by
  rw [UInt32.toNat_shiftLeft, UInt8.toNat_toUInt32, Nat.mod_eq_of_lt few, Nat.shiftLeft_eq]
  rfl

/-- A size that comes from a shift is one of the four sizes, or zero where all bits were lost. -/
theorem toNat_of_ofShift? {size : UInt32} (h : ofShift? shift = some size) :
    size.toNat = 0 ∨ shift ≤ 3 ∧ size.toNat = 512 * 2 ^ shift.toNat := by
  simp only [ofShift?, UInt8.lt_iff_toNat_lt, UInt32.le_iff_toNat_le] at h
  split at h
  · next few =>
    split at h
    · next small =>
      obtain rfl := Option.some.inj h
      rw [toNat_shifted few] at small ⊢
      by_cases kept : shift.toNat < 23
      · have whole : 2 ^ shift.toNat ≤ 2 ^ 22 :=
          Nat.pow_le_pow_right (by decide) (Nat.le_of_lt_succ kept)
        rw [Nat.mod_eq_of_lt (by omega)] at small ⊢
        have one : 2 ^ shift.toNat ≤ 2 ^ 3 := by
          change 512 * 2 ^ shift.toNat ≤ 4096 at small
          omega
        exact .inr ⟨UInt8.le_iff_toNat_le.2 ((Nat.pow_le_pow_iff_right (by decide)).1 one), rfl⟩
      · have lost : 512 * 2 ^ shift.toNat = 2 ^ 32 * 2 ^ (shift.toNat - 23) := by
          have split : 2 ^ shift.toNat = 2 ^ 23 * 2 ^ (shift.toNat - 23) := by
            rw [← Nat.pow_add, Nat.add_sub_cancel' (Nat.le_of_not_lt kept)]
          rw [split]
          omega
        exact .inl (by rw [lost, Nat.mul_mod_right])
    · cases h
  · cases h

theorem ofShift?_of_le (small : shift ≤ 3) :
    ∃ size, ofShift? shift = some size ∧ size.toNat = 512 * 2 ^ shift.toNat := by
  have small : shift.toNat ≤ 3 := UInt8.le_iff_toNat_le.1 small
  have power : 2 ^ shift.toNat ≤ 2 ^ 3 := Nat.pow_le_pow_right (by decide) small
  have size := toNat_shifted (Nat.lt_of_le_of_lt small (by decide))
  rw [Nat.mod_eq_of_lt (by omega)] at size
  refine ⟨_, ?_, size⟩
  have few : shift < 32 := UInt8.lt_iff_toNat_lt.2 (Nat.lt_of_le_of_lt small (by decide))
  have fits : smallestBlock <<< shift.toUInt32 ≤ largestBlock := by
    rw [UInt32.le_iff_toNat_le, size]
    change 512 * 2 ^ shift.toNat ≤ 4096
    omega
  simp only [ofShift?, if_pos few, if_pos fits]

end Geometry

namespace Superblock

/-- The superblock at the start of bytes is the one whose bytes they start with. -/
theorem ofStart?_eq_some_iff {bytes : Bytes} {sb : Superblock} :
    ofStart? bytes = some sb ↔ sb.encode <+: bytes := by
  constructor
  · intro found
    unfold ofStart? at found
    split at found
    · next enough =>
      obtain rfl := Option.some.inj found
      rw [encode_decode (by rw [List.length_take, Nat.min_eq_left enough])]
      exact List.take_prefix _ _
    · cases found
  · intro stands
    have enough := stands.length_le
    have same := List.prefix_iff_eq_take.1 stands
    rw [length_encode] at enough same
    rw [ofStart?, if_pos enough, ← same, decode_encode]

theorem ofStart?_take {bytes : Bytes} {sb : Superblock} (stands : sb.encode <+: bytes) :
    ofStart? (bytes.take Geometry.recordSize) = some sb :=
  ofStart?_eq_some_iff.2 (List.prefix_take_iff.2 ⟨stands, Nat.le_of_eq sb.length_encode⟩)

/-- The regions that a superblock describes fit together and to a length, with blocks of some
size. -/
structure Regions (sb : Superblock) (blockSize length : Nat) : Prop where
  length : length = sb.totalBlocks.toNat * blockSize
  dataStart : sb.dataStart.toNat = 1 + sb.metaBlocks.toNat
  dataStart_le : sb.dataStart.toNat ≤ sb.totalBlocks.toNat
  rootTable : 1 ≤ sb.rootTable.toNat
  rootTable_le : sb.rootTable.toNat + Geometry.tableBlocks sb.rootEntries.toNat blockSize
    ≤ sb.dataStart.toNat

/-- A superblock that can start an image of a length. -/
structure WellFormed (sb : Superblock) (length : Nat) : Prop where
  magic : sb.magic = signature
  version : sb.version = currentVersion
  shift : sb.blockShift ≤ 3
  regions : sb.Regions (512 * 2 ^ sb.blockShift.toNat) length

/-- Where the content starts is compared in 32 bits after its number was found to fit, which is the
same as comparing without wrap-around. -/
theorem dataStart_eq_iff (sb : Superblock) :
    (sb.metaBlocks.toNat + 1 < UInt32.size ∧ sb.dataStart = 1 + sb.metaBlocks)
      ↔ sb.dataStart.toNat = 1 + sb.metaBlocks.toNat := by
  have limit := sb.dataStart.toNat_lt
  rw [← UInt32.toNat_inj, UInt32.toNat_add, UInt32.toNat_one]
  simp only [UInt32.size]
  omega

end Superblock

namespace Image

variable {bytes : ByteArray} {sb : Superblock} {blockSize : UInt32}

theorem regions_of_ofHeader {img : Image} (opened : ofHeader bytes sb blockSize = .ok img) :
    sb.Regions blockSize.toNat bytes.size := by
  rw [ofHeader] at opened
  split at opened
  · cases opened
  · next size =>
    split at opened
    · cases opened
    · next blocks =>
      split at opened
      · cases opened
      · next bounds =>
        obtain ⟨start, inside⟩ := not_or.1 bounds
        cases read : root ⟨bytes, sb, blockSize⟩ with
        | error e =>
          rw [read] at opened
          cases opened
        | ok records =>
          obtain ⟨behind, before⟩ := inside_of_table read
          exact ⟨not_not.1 size, sb.dataStart_eq_iff.1 ⟨not_not.1 blocks, not_not.1 start⟩,
            UInt32.le_iff_toNat_le.1 (UInt32.not_lt.1 inside), behind, before⟩

theorem ofHeader_of_regions (pos : 0 < blockSize.toNat)
    (regions : sb.Regions blockSize.toNat bytes.size) :
    ofHeader bytes sb blockSize = .ok ⟨bytes, sb, blockSize⟩ := by
  have sound : Sound ⟨bytes, sb, blockSize⟩ := ⟨pos, regions.dataStart_le, regions.length⟩
  have read : root ⟨bytes, sb, blockSize⟩ = .ok _ :=
    table_eq_ok sound regions.rootTable regions.rootTable_le
  obtain ⟨blocks, start⟩ := sb.dataStart_eq_iff.2 regions.dataStart
  have inside : ¬ sb.totalBlocks < sb.dataStart :=
    UInt32.not_lt.2 (UInt32.le_iff_toNat_le.2 regions.dataStart_le)
  rw [ofHeader, if_neg (not_not.2 regions.length), if_neg (not_not.2 blocks),
    if_neg (not_or.2 ⟨not_not.2 start, inside⟩), read]
  rfl

/-- Of bytes that start with a header, what the header says is checked. -/
theorem ofBytes_eq_ofHeader (stands : sb.encode <+: Bytes.ofBuffer bytes)
    (magic : sb.magic = Superblock.signature) (version : sb.version = Superblock.currentVersion)
    (shifted : sb.blockSize? = some blockSize) :
    ofBytes bytes = ofHeader bytes sb blockSize := by
  simp only [ofBytes_eq, Superblock.ofStart?_take stands, shifted]
  rw [if_neg (not_not.2 magic), if_neg (not_not.2 version)]

/-- Bytes that do not start with a header are refused. -/
theorem ofHeader_or_refused (bytes : ByteArray) :
    (∃ sb blockSize, sb.encode <+: Bytes.ofBuffer bytes ∧ sb.magic = Superblock.signature
        ∧ sb.version = Superblock.currentVersion ∧ sb.blockSize? = some blockSize
        ∧ ofBytes bytes = ofHeader bytes sb blockSize)
      ∨ ∃ e, ofBytes bytes = Fault.fail e := by
  cases header : Superblock.ofStart? ((Bytes.ofBuffer bytes).take Geometry.recordSize) with
  | none =>
    refine .inr ⟨.tooShort, ?_⟩
    rw [ofBytes_eq, header]
  | some sb =>
    have stands : sb.encode <+: Bytes.ofBuffer bytes :=
      (Superblock.ofStart?_eq_some_iff.1 header).trans (List.take_prefix _ _)
    by_cases magic : sb.magic = Superblock.signature
    · by_cases version : sb.version = Superblock.currentVersion
      · cases shifted : sb.blockSize? with
        | none =>
          refine .inr ⟨.invalidBlockShift sb.blockShift, ?_⟩
          simp only [ofBytes_eq, header, shifted]
          rw [if_neg (not_not.2 magic), if_neg (not_not.2 version)]
        | some blockSize =>
          exact .inl ⟨sb, blockSize, stands, magic, version, shifted,
            ofBytes_eq_ofHeader stands magic version shifted⟩
      · refine .inr ⟨.unsupportedVersion sb.version, ?_⟩
        simp only [ofBytes_eq, header]
        rw [if_neg (not_not.2 magic), if_pos version]
    · refine .inr ⟨.badMagic sb.magic, ?_⟩
      simp only [ofBytes_eq, header]
      rw [if_pos magic]

/-- Bytes that start with a superblock whose regions fit are opened as its image. -/
theorem ofBytes_of_regions (stands : sb.encode <+: Bytes.ofBuffer bytes)
    (magic : sb.magic = Superblock.signature) (version : sb.version = Superblock.currentVersion)
    (shifted : sb.blockSize? = some blockSize) (pos : 0 < blockSize.toNat)
    (regions : sb.Regions blockSize.toNat bytes.size) :
    ofBytes bytes = .ok ⟨bytes, sb, blockSize⟩ := by
  rw [ofBytes_eq_ofHeader stands magic version shifted]
  exact ofHeader_of_regions pos regions

/-- Bytes are opened as an image exactly when they start with a superblock that is well-formed. -/
theorem ofBytes_eq_ok_iff (bytes : ByteArray) :
    (∃ img, ofBytes bytes = .ok img)
      ↔ ∃ sb : Superblock, sb.encode <+: Bytes.ofBuffer bytes ∧ sb.WellFormed bytes.size := by
  constructor
  · rintro ⟨img, opened⟩
    rw [ofBytes_eq] at opened
    cases header : Superblock.ofStart? ((Bytes.ofBuffer bytes).take Geometry.recordSize) with
    | none =>
      rw [header] at opened
      cases opened
    | some sb =>
      have stands : sb.encode <+: Bytes.ofBuffer bytes :=
        (Superblock.ofStart?_eq_some_iff.1 header).trans (List.take_prefix _ _)
      have enough := stands.length_le
      rw [Superblock.length_encode, Buffer.length_ofBuffer] at enough
      simp only [header] at opened
      split at opened
      · cases opened
      · next magic =>
        split at opened
        · cases opened
        · next version =>
          split at opened
          · cases opened
          · next blockSize shifted =>
            have regions := regions_of_ofHeader opened
            obtain lost | ⟨shift, size⟩ := Geometry.toNat_of_ofShift? shifted
            -- Blocks of no bytes would make an image of no bytes.
            · have none := regions.length
              rw [lost, Nat.mul_zero] at none
              rw [none] at enough
              exact absurd enough (by decide)
            · rw [size] at regions
              exact ⟨sb, stands, not_not.1 magic, not_not.1 version, shift, regions⟩
  · rintro ⟨sb, stands, fine⟩
    obtain ⟨blockSize, shifted, size⟩ := Geometry.ofShift?_of_le fine.shift
    have pos : 0 < blockSize.toNat := by
      rw [size]
      exact Nat.mul_pos (by decide) (Nat.two_pow_pos _)
    have regions := fine.regions
    rw [← size] at regions
    exact ⟨_, ofBytes_of_regions stands fine.magic fine.version shifted pos regions⟩

end Image

end FlatImage
