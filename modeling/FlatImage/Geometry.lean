/-!
# Blocks

An image is a sequence of blocks of one size, and everything in it starts on a block boundary. The
superblock holds the size as a shift: the smallest size, doubled so many times.

Counts of blocks are natural numbers here and never wrap; where a count goes into a field of the
image, the field's type is chosen there.
-/

namespace FlatImage.Geometry

def smallestBlock : UInt32 := 512

def largestBlock : UInt32 := 4096

/-- The bytes of one directory record, and of the superblock. -/
def recordSize : Nat := 64

def nameCapacity : Nat := 36

/-- The largest size of a file: its record holds the size in 32 bits. -/
def largestFile : UInt64 := 4294967295

def mostBlocks : UInt32 := 4294967295

/-- The shift that stands for a block size: powers of two from the smallest size to the largest
have one. -/
def shiftOf? (blockSize : UInt32) : Option UInt8 :=
  if smallestBlock ≤ blockSize ∧ blockSize ≤ largestBlock
      ∧ 1 <<< Nat.log2 blockSize.toNat = blockSize.toNat then
    some (UInt8.ofNat (Nat.log2 (blockSize.toNat / smallestBlock.toNat)))
  else none

/-- The block size that a shift stands for. The size is computed in 32 bits, and bits that leave
them are lost: only the amount of the shift is checked, and then that the result is not larger
than the largest size. -/
def ofShift? (shift : UInt8) : Option UInt32 :=
  if shift < 32 then
    let size := smallestBlock <<< shift.toUInt32
    if size ≤ largestBlock then some size else none
  else none

/-- How many blocks hold so many bytes. -/
def blocksFor (bytes blockSize : Nat) : Nat := (bytes + (blockSize - 1)) / blockSize

/-- How many blocks hold so many bytes; blocks of no bytes hold nothing. -/
def blocksFor? (bytes blockSize : Nat) : Option Nat :=
  if blockSize = 0 then none else some (blocksFor bytes blockSize)

/-- How many blocks a directory table has. A table without records has one too, so that every
directory starts somewhere. -/
def tableBlocks (entries blockSize : Nat) : Nat :=
  max 1 (blocksFor (entries * recordSize) blockSize)

/-- How many blocks a directory table has; blocks of no bytes hold nothing. -/
def tableBlocks? (entries blockSize : Nat) : Option Nat :=
  (blocksFor? (entries * recordSize) blockSize).map (max 1 ·)

def tableCapacity (blocks blockSize : Nat) : Nat := blocks * blockSize / recordSize

/-- The bytes from `start` up to and without `stop`. -/
structure ByteRange where
  start : Nat
  stop : Nat
  deriving DecidableEq

def byteRange (start count blockSize : Nat) : ByteRange :=
  ⟨start * blockSize, start * blockSize + count * blockSize⟩

@[simp] theorem blocksFor_zero (blockSize : Nat) : blocksFor 0 blockSize = 0 := by
  unfold blocksFor
  cases blockSize with
  | zero => rfl
  | succ n => exact Nat.div_eq_of_lt (by omega)

theorem le_blocksFor_mul {bytes blockSize : Nat} (pos : 0 < blockSize) :
    bytes ≤ blocksFor bytes blockSize * blockSize := by
  have split := Nat.div_add_mod (bytes + (blockSize - 1)) blockSize
  have small := Nat.mod_lt (bytes + (blockSize - 1)) pos
  rw [Nat.mul_comm] at split
  unfold blocksFor
  omega

/-- One block fewer would not hold them. -/
theorem blocksFor_mul_lt {bytes blockSize : Nat} (pos : 0 < blockSize) :
    blocksFor bytes blockSize * blockSize < bytes + blockSize := by
  have split := Nat.div_add_mod (bytes + (blockSize - 1)) blockSize
  rw [Nat.mul_comm] at split
  unfold blocksFor
  omega

/-- No block is needed for less than a byte. -/
theorem blocksFor_le (bytes blockSize : Nat) : blocksFor bytes blockSize ≤ bytes := by
  rcases Nat.eq_zero_or_pos bytes with rfl | pos
  · simp
  · rcases Nat.eq_zero_or_pos blockSize with rfl | wide
    · simp [blocksFor]
    · have less : blocksFor bytes blockSize * blockSize < bytes + blockSize :=
        blocksFor_mul_lt wide
      have grow : bytes ≤ bytes * blockSize := Nat.le_mul_of_pos_right _ wide
      have one : blocksFor bytes blockSize * blockSize < (bytes + 1) * blockSize := by
        rw [Nat.add_mul]
        omega
      exact Nat.le_of_lt_succ (Nat.lt_of_mul_lt_mul_right one)

theorem blocksFor_pos {bytes blockSize : Nat} (pos : 0 < blockSize) :
    0 < blocksFor bytes blockSize ↔ 0 < bytes := by
  constructor
  · intro h
    rcases Nat.eq_zero_or_pos bytes with rfl | h'
    · simp at h
    · exact h'
  · intro h
    have : bytes ≤ blocksFor bytes blockSize * blockSize := le_blocksFor_mul pos
    rcases Nat.eq_zero_or_pos (blocksFor bytes blockSize) with h' | h'
    · simp [h'] at this; omega
    · exact h'

theorem one_le_tableBlocks (entries blockSize : Nat) : 1 ≤ tableBlocks entries blockSize := by
  unfold tableBlocks
  omega

/-- The records of a table fit into its blocks. -/
theorem le_tableBlocks_mul {entries blockSize : Nat} (pos : 0 < blockSize) :
    entries * recordSize ≤ tableBlocks entries blockSize * blockSize := by
  have h : entries * recordSize ≤ blocksFor (entries * recordSize) blockSize * blockSize :=
    le_blocksFor_mul pos
  have : blocksFor (entries * recordSize) blockSize ≤ tableBlocks entries blockSize := by
    unfold tableBlocks
    omega
  exact Nat.le_trans h (Nat.mul_le_mul_right _ this)

end FlatImage.Geometry
