import FlatImage.Buffer

/-!
# Contents with a hole at the end

A file can be far longer than what was ever written to it. Such a content is kept as the bytes that
are stored and the number of zeros that follow them; `Blob.toList` is the content itself. Two
contents can be the same and store different parts of it, so statements compare their lists.

Cutting a piece out of a content and putting one into it leaves holes as they are: zeros are only
stored when stored bytes come after them.
-/

namespace FlatImage

/-- Stored bytes, and how many zero bytes follow. -/
structure Blob where
  stored : ByteArray
  zeros : Nat

namespace Blob

def ofBuffer (buffer : ByteArray) : Blob := ⟨buffer, 0⟩

def hole (n : Nat) : Blob := ⟨.empty, n⟩

def size (b : Blob) : Nat := b.stored.size + b.zeros

/-- The content, byte by byte. -/
def toList (b : Blob) : Bytes := Bytes.ofBuffer b.stored ++ List.replicate b.zeros 0

def toBuffer (b : Blob) : ByteArray :=
  if b.zeros = 0 then b.stored else b.stored ++ Buffer.zeros b.zeros

/-- The `n` bytes from `start` on, or as many as there are. -/
def slice (b : Blob) (start n : Nat) : Blob :=
  ⟨b.stored.extract start (start + n), min (start + n) b.size - max start b.stored.size⟩

def append (a b : Blob) : Blob :=
  if b.stored.size = 0 then ⟨a.stored, a.zeros + b.zeros⟩ else ⟨a.toBuffer ++ b.stored, b.zeros⟩

/-- The content cut, or filled up with zeros, to `n` bytes. -/
def resize (b : Blob) (n : Nat) : Blob :=
  if n ≤ b.stored.size then ⟨b.stored.extract 0 n, 0⟩ else ⟨b.stored, n - b.stored.size⟩

/-- The content filled up with zeros to at least `n` bytes. -/
def grow (b : Blob) (n : Nat) : Blob := if b.size < n then b.resize n else b

/-- Stores bytes at an offset, with zeros in any gap. The size does not change as long as the bytes
lie within it. -/
def store (b : Blob) (offset : Nat) (bytes : ByteArray) : Blob :=
  let ⟨stored, zeros⟩ := b
  let size := stored.size + zeros
  let stored := Buffer.overwrite stored offset bytes
  ⟨stored, max size stored.size - stored.size⟩

/-- Puts a piece at an offset. A content that ends before the last byte of the piece grows, with
zeros in any gap; this holds also where there are no bytes to put. -/
def overwrite (b : Blob) (offset : Nat) (piece : Blob) : Blob :=
  let grown := b.grow (offset + piece.size)
  if offset + piece.stored.size < grown.stored.size then grown.store offset piece.toBuffer
  else if piece.stored.size = 0 then grown
  else grown.store offset piece.stored

@[simp] theorem length_toList (b : Blob) : b.toList.length = b.size := by
  simp [toList, size]

@[simp] theorem toList_ofBuffer (buffer : ByteArray) :
    (ofBuffer buffer).toList = Bytes.ofBuffer buffer := by
  simp [toList, ofBuffer]

@[simp] theorem toList_hole (n : Nat) : (hole n).toList = List.replicate n 0 := by
  simp [toList, hole, Bytes.ofBuffer]

@[simp] theorem size_ofBuffer (buffer : ByteArray) : (ofBuffer buffer).size = buffer.size := rfl

@[simp] theorem size_hole (n : Nat) : (hole n).size = n := by
  simp [size, hole]

theorem ofBuffer_toBuffer (b : Blob) : Bytes.ofBuffer b.toBuffer = b.toList := by
  unfold toBuffer toList
  split
  · next h => simp [h]
  · simp

@[simp] theorem size_toBuffer (b : Blob) : b.toBuffer.size = b.size := by
  rw [← Buffer.length_ofBuffer, ofBuffer_toBuffer, length_toList]

theorem toList_slice (b : Blob) (start n : Nat) :
    (b.slice start n).toList = (b.toList.drop start).take n := by
  unfold slice toList
  rw [Buffer.ofBuffer_extract, List.drop_append, List.take_append]
  congr 1
  · rw [List.drop_take]
    congr 1
    omega
  · simp only [List.drop_replicate, List.take_replicate, List.length_drop, Buffer.length_ofBuffer,
      size]
    congr 1
    omega

theorem toList_append (a b : Blob) : (a.append b).toList = a.toList ++ b.toList := by
  unfold append
  split
  · next h =>
    have none : Bytes.ofBuffer b.stored = [] := List.length_eq_zero_iff.1 h
    simp [toList, none, List.replicate_append_replicate]
  · have := ofBuffer_toBuffer a
    unfold toList at this ⊢
    simp [this]

theorem toList_resize (b : Blob) (n : Nat) :
    (b.resize n).toList = b.toList.take n ++ List.replicate (n - b.size) 0 := by
  unfold resize toList
  split
  · next h =>
    have none : n - b.size = 0 := by unfold size; omega
    rw [Buffer.ofBuffer_extract, List.take_append_of_le_length (by simpa using h)]
    simp [none]
  · next h =>
    rw [List.take_append, List.take_of_length_le (by simp; omega), List.append_assoc,
      List.take_replicate, List.replicate_append_replicate]
    congr 2
    simp only [Buffer.length_ofBuffer, size]
    omega

/-- The content is what its stored bytes become when they are filled up, and more zeros. -/
theorem toList_eq_extend {b : Blob} {n : Nat} (h : n ≤ b.size) :
    b.toList = Bytes.ofBuffer (Buffer.extend b.stored n)
      ++ List.replicate (b.size - max b.stored.size n) 0 := by
  unfold toList
  rw [Buffer.ofBuffer_extend, List.append_assoc, List.replicate_append_replicate]
  congr 2
  simp only [size] at h ⊢
  omega

theorem toList_store {b : Blob} {offset : Nat} {bytes : ByteArray}
    (h : offset + bytes.size ≤ b.size) :
    (b.store offset bytes).toList
      = b.toList.take offset ++ Bytes.ofBuffer bytes ++ b.toList.drop (offset + bytes.size) := by
  have long : (Bytes.ofBuffer (Buffer.extend b.stored (offset + bytes.size))).length
      = max b.stored.size (offset + bytes.size) := by simp [Buffer.size_extend]
  rw [toList_eq_extend h, List.take_append_of_le_length (by omega),
    List.drop_append_of_le_length (by omega), ← List.append_assoc, ← Buffer.ofBuffer_overwrite]
  unfold store toList
  dsimp only [size] at h ⊢
  rw [Buffer.size_overwrite]
  congr 2
  omega

/-- Behind the stored bytes there is nothing but zeros. -/
theorem drop_toList {b : Blob} {n : Nat} (h : b.stored.size ≤ n) :
    b.toList.drop n = List.replicate (b.size - n) 0 := by
  unfold toList
  rw [List.drop_append, List.drop_eq_nil_of_le (by simpa using h), List.nil_append,
    List.drop_replicate]
  congr 1
  simp only [Buffer.length_ofBuffer, size]
  omega

theorem toList_grow (b : Blob) (n : Nat) :
    (b.grow n).toList = b.toList ++ List.replicate (n - b.size) 0 := by
  unfold grow
  split
  · next h => rw [toList_resize, List.take_of_length_le (by simp; omega)]
  · next h => simp [Nat.sub_eq_zero_of_le (Nat.le_of_not_lt h)]

theorem size_grow (b : Blob) (n : Nat) : (b.grow n).size = max b.size n := by
  rw [← length_toList, toList_grow, List.length_append, length_toList, List.length_replicate]
  omega

/-- A content with a piece put into it: what was before the offset, the piece, what was after. -/
theorem toList_overwrite (b : Blob) (offset : Nat) (piece : Blob) :
    (b.overwrite offset piece).toList
      = (b.grow (offset + piece.size)).toList.take offset ++ piece.toList
        ++ (b.grow (offset + piece.size)).toList.drop (offset + piece.size) := by
  have room : offset + piece.size ≤ (b.grow (offset + piece.size)).size := by
    rw [size_grow]
    omega
  unfold overwrite
  generalize b.grow (offset + piece.size) = grown at *
  dsimp only
  split
  · rw [toList_store (by simpa using room), ofBuffer_toBuffer, size_toBuffer]
  · next behind =>
    have split : grown.toList.drop (offset + piece.stored.size)
        = List.replicate piece.zeros 0 ++ grown.toList.drop (offset + piece.size) := by
      rw [drop_toList (by omega), drop_toList (by simp only [size] at *; omega),
        List.replicate_append_replicate]
      congr 1
      simp only [size] at *
      omega
    split
    · next none =>
      have empty : Bytes.ofBuffer piece.stored = [] := List.length_eq_zero_iff.1 none
      have all : piece.toList = List.replicate piece.zeros 0 := by simp [toList, empty]
      rw [all, List.append_assoc, ← split, none, Nat.add_zero, List.take_append_drop]
    · rw [toList_store (by simp only [size] at *; omega), split]
      simp [toList, List.append_assoc]

end Blob

end FlatImage
