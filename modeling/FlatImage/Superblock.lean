import FlatImage.Record

/-!
# The superblock

The first sixty-four bytes of an image say how its blocks are laid out. As with records, a
`Superblock` holds whatever sixty-four bytes say, and which of them describe an image is decided
where an image is opened. A superblock and its bytes determine each other.
-/

namespace FlatImage

/-- The header of an image as it is stored. -/
structure Superblock where
  magic : Vector UInt8 8
  version : UInt8
  blockShift : UInt8
  totalBlocks : UInt32
  /-- The first block of the root directory's table. -/
  rootTable : UInt32
  rootEntries : UInt32
  /-- The number of blocks of all directory tables. -/
  metaBlocks : UInt32
  /-- The first block after the tables. -/
  dataStart : UInt32
  entryCount : UInt32
  reserved : Vector UInt8 30
  deriving DecidableEq

namespace Superblock

/-- The eight bytes that an image starts with, `CINEA FS`. -/
def signature : Vector UInt8 8 := #v[0x43, 0x49, 0x4E, 0x45, 0x41, 0x20, 0x46, 0x53]

def currentVersion : UInt8 := 1

/-- The block size that the shift stands for, if it stands for one. -/
def blockSize? (sb : Superblock) : Option UInt32 := Geometry.ofShift? sb.blockShift

def encode (sb : Superblock) : Bytes :=
  sb.magic.toList ++ [sb.version, sb.blockShift] ++ BigEndian.encode 4 sb.totalBlocks.toNat
    ++ BigEndian.encode 4 sb.rootTable.toNat ++ BigEndian.encode 4 sb.rootEntries.toNat
    ++ BigEndian.encode 4 sb.metaBlocks.toNat ++ BigEndian.encode 4 sb.dataStart.toNat
    ++ BigEndian.encode 4 sb.entryCount.toNat ++ sb.reserved.toList

def decode (bytes : Bytes) : Superblock where
  magic := Vector.ofFn fun i => bytes.getD i.val 0
  version := bytes.getD 8 0
  blockShift := bytes.getD 9 0
  totalBlocks := UInt32.ofNat (Record.field bytes 10 4)
  rootTable := UInt32.ofNat (Record.field bytes 14 4)
  rootEntries := UInt32.ofNat (Record.field bytes 18 4)
  metaBlocks := UInt32.ofNat (Record.field bytes 22 4)
  dataStart := UInt32.ofNat (Record.field bytes 26 4)
  entryCount := UInt32.ofNat (Record.field bytes 30 4)
  reserved := Vector.ofFn fun i => (bytes.drop 34).getD i.val 0

/-- The superblock at the start of the bytes, when there are enough of them. -/
def ofStart? (bytes : Bytes) : Option Superblock :=
  if Geometry.recordSize ≤ bytes.length then some (decode (bytes.take Geometry.recordSize))
  else none

@[simp] theorem length_encode (sb : Superblock) : sb.encode.length = Geometry.recordSize := by
  simp [encode, Geometry.recordSize]

theorem decode_encode (sb : Superblock) : decode sb.encode = sb := by
  cases sb with
  | mk magic version blockShift totalBlocks rootTable rootEntries metaBlocks dataStart entryCount
      reserved =>
    simp only [decode, mk.injEq]
    refine ⟨?_, by simp [encode], by simp [encode], ?_, ?_, ?_, ?_, ?_, ?_, ?_⟩
    · ext i hi
      simp only [encode, List.append_assoc, Vector.getElem_ofFn, List.getD_eq_getElem?_getD]
      rw [List.getElem?_append_left (by simpa using hi)]
      simp [hi]
    all_goals simp only [Record.field, encode, List.append_assoc, List.cons_append,
      List.nil_append, List.drop_succ_cons, List.drop_zero, List.drop_append,
      BigEndian.length_encode, List.drop_eq_nil_of_le, Nat.reduceLeDiff, Nat.reduceSub,
      Nat.le_refl, Vector.length_toList]
    · simp [BigEndian.decode_encode, BigEndian.bound, totalBlocks.toNat_lt]
    · simp [BigEndian.decode_encode, BigEndian.bound, rootTable.toNat_lt]
    · simp [BigEndian.decode_encode, BigEndian.bound, rootEntries.toNat_lt]
    · simp [BigEndian.decode_encode, BigEndian.bound, metaBlocks.toNat_lt]
    · simp [BigEndian.decode_encode, BigEndian.bound, dataStart.toNat_lt]
    · simp [BigEndian.decode_encode, BigEndian.bound, entryCount.toNat_lt]
    · ext i hi
      simp [List.getD_eq_getElem?_getD]

/-- Sixty-four bytes are written as they were read. -/
theorem encode_decode {bytes : Bytes} (h : bytes.length = Geometry.recordSize) :
    (decode bytes).encode = bytes := by
  simp only [Geometry.recordSize] at h
  have t := Record.field_lt bytes 10 4
  have r := Record.field_lt bytes 14 4
  have e := Record.field_lt bytes 18 4
  have m := Record.field_lt bytes 22 4
  have d := Record.field_lt bytes 26 4
  have c := Record.field_lt bytes 30 4
  have front : (Vector.ofFn fun i : Fin 8 => bytes.getD i.val 0).toList = bytes.take 8 := by
    apply List.ext_getElem
    · simp; omega
    · intro i hi _
      simp at hi
      simp [List.getD_eq_getElem?_getD, List.getElem?_eq_getElem (show i < bytes.length by omega)]
  have head : [bytes.getD 8 0, bytes.getD 9 0] = (bytes.drop 8).take 2 := by
    apply List.ext_getElem
    · simp; omega
    · intro i hi _
      simp at hi
      rcases (by omega : i = 0 ∨ i = 1) with rfl | rfl
      · simp [List.getD_eq_getElem?_getD, List.getElem?_eq_getElem (show 8 < bytes.length by omega)]
      · simp [List.getD_eq_getElem?_getD, List.getElem?_eq_getElem (show 9 < bytes.length by omega)]
  have tail : (Vector.ofFn fun i : Fin 30 => (bytes.drop 34).getD i.val 0).toList
      = bytes.drop 34 := by
    apply List.ext_getElem
    · simp; omega
    · intro i _ hi
      rw [List.length_drop] at hi
      simp [List.getD_eq_getElem?_getD,
        List.getElem?_eq_getElem (show 34 + i < bytes.length by omega)]
  simp only [encode, decode, front, head, tail]
  rw [UInt32.toNat_ofNat_of_lt' t, UInt32.toNat_ofNat_of_lt' r, UInt32.toNat_ofNat_of_lt' e,
    UInt32.toNat_ofNat_of_lt' m, UInt32.toNat_ofNat_of_lt' d, UInt32.toNat_ofNat_of_lt' c]
  rw [Record.encode_field _ _ _ (by omega), Record.encode_field _ _ _ (by omega),
    Record.encode_field _ _ _ (by omega), Record.encode_field _ _ _ (by omega),
    Record.encode_field _ _ _ (by omega), Record.encode_field _ _ _ (by omega)]
  simp only [← List.take_add, Nat.reduceAdd, List.take_append_drop]

end Superblock

end FlatImage
