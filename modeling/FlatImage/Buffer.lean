import FlatImage.Bytes

/-!
# Bytes in one piece

File contents and images are `ByteArray`s. The operations here are the ones that reading and
writing an image need, and each comes with its effect on the list view `Bytes.ofBuffer`.
A slice outside its buffer is `none` rather than clipped, so that a caller has to say what a
range error means to it.
-/

namespace FlatImage.Buffer

/-- `n` zero bytes, made of two halves that are copied in one piece, up to `depth` times. -/
def halvedZeros : (depth n : Nat) → ByteArray
  | 0, n => ⟨Array.replicate n 0⟩
  | depth + 1, n =>
    if n < 64 then ⟨Array.replicate n 0⟩
    else
      let half := halvedZeros depth (n / 2)
      let both := half ++ half
      if n % 2 = 0 then both else both.push 0

/-- `n` zero bytes. -/
def zeros (n : Nat) : ByteArray := halvedZeros (Nat.log2 n) n

/-- The bytes at `start`, up to and without `stop`, when both lie within the buffer. -/
def slice? (buffer : ByteArray) (start stop : Nat) : Option ByteArray :=
  if start ≤ stop ∧ stop ≤ buffer.size then some (buffer.extract start stop) else none

/-- The buffer cut, or filled up with zeros, to `n` bytes. -/
def resize (buffer : ByteArray) (n : Nat) : ByteArray :=
  if n ≤ buffer.size then buffer.extract 0 n else buffer ++ zeros (n - buffer.size)

/-- The buffer filled up with zeros to at least `n` bytes. -/
def extend (buffer : ByteArray) (n : Nat) : ByteArray :=
  if n ≤ buffer.size then buffer else buffer ++ zeros (n - buffer.size)

/-- Puts `bytes` at `offset`. A buffer that ends before the last of them grows, with zeros in any
gap; this holds also where there are no bytes to put. -/
def overwrite (buffer : ByteArray) (offset : Nat) (bytes : ByteArray) : ByteArray :=
  bytes.copySlice 0 (extend buffer (offset + bytes.size)) offset bytes.size

/-- The byte at `i`, and zero after the end. -/
def byteAt (buffer : ByteArray) (i : Nat) : UInt8 :=
  if h : i < buffer.size then buffer[i] else 0

@[simp] theorem length_ofBuffer (buffer : ByteArray) :
    (Bytes.ofBuffer buffer).length = buffer.size := rfl

@[simp] theorem ofBuffer_append (a b : ByteArray) :
    Bytes.ofBuffer (a ++ b) = Bytes.ofBuffer a ++ Bytes.ofBuffer b := by
  simp [Bytes.ofBuffer]

@[simp] theorem ofBuffer_push (a : ByteArray) (b : UInt8) :
    Bytes.ofBuffer (a.push b) = Bytes.ofBuffer a ++ [b] := by
  simp [Bytes.ofBuffer]

theorem ofBuffer_halvedZeros (depth n : Nat) :
    Bytes.ofBuffer (halvedZeros depth n) = List.replicate n 0 := by
  induction depth generalizing n with
  | zero => simp [halvedZeros, Bytes.ofBuffer]
  | succ depth ih =>
    unfold halvedZeros
    split
    · simp [Bytes.ofBuffer]
    · dsimp only
      split
      · rw [ofBuffer_append, ih, List.replicate_append_replicate]
        congr 1
        omega
      · rw [ofBuffer_push, ofBuffer_append, ih, List.replicate_append_replicate,
          ← List.replicate_succ']
        congr 1
        omega

@[simp] theorem ofBuffer_zeros (n : Nat) : Bytes.ofBuffer (zeros n) = List.replicate n 0 :=
  ofBuffer_halvedZeros ..

theorem ofBuffer_injective {a b : ByteArray} (h : Bytes.ofBuffer a = Bytes.ofBuffer b) : a = b :=
  ByteArray.ext (Array.ext' h)

theorem ofBuffer_extract (buffer : ByteArray) (start stop : Nat) :
    Bytes.ofBuffer (buffer.extract start stop)
      = ((Bytes.ofBuffer buffer).take stop).drop start := by
  simp [Bytes.ofBuffer, List.drop_take]

theorem ofBuffer_extend (buffer : ByteArray) (n : Nat) :
    Bytes.ofBuffer (extend buffer n)
      = Bytes.ofBuffer buffer ++ List.replicate (n - buffer.size) 0 := by
  unfold extend
  split
  · next h => simp [Nat.sub_eq_zero_of_le h]
  · simp

theorem size_extend (buffer : ByteArray) (n : Nat) :
    (extend buffer n).size = max buffer.size n := by
  rw [← length_ofBuffer, ofBuffer_extend]
  simp
  omega

/-- What an overwritten buffer holds: what was before the offset, the bytes, what was after. -/
theorem ofBuffer_overwrite (buffer : ByteArray) (offset : Nat) (bytes : ByteArray) :
    Bytes.ofBuffer (overwrite buffer offset bytes)
      = (Bytes.ofBuffer (extend buffer (offset + bytes.size))).take offset
        ++ Bytes.ofBuffer bytes
        ++ (Bytes.ofBuffer (extend buffer (offset + bytes.size))).drop (offset + bytes.size) := by
  have full : bytes.data.size = bytes.size := rfl
  simp only [overwrite, ByteArray.copySlice, Bytes.ofBuffer, full, Array.toList_append,
    Array.toList_extract, List.extract_eq_take_drop, Nat.sub_zero, List.drop_zero, Nat.zero_add,
    Nat.min_self]
  congr 1
  · rw [List.take_of_length_le (i := bytes.size) (by simp [full])]
  · rw [List.take_of_length_le (by simp)]

theorem size_overwrite (buffer : ByteArray) (offset : Nat) (bytes : ByteArray) :
    (overwrite buffer offset bytes).size = max buffer.size (offset + bytes.size) := by
  rw [← length_ofBuffer, ofBuffer_overwrite]
  simp only [List.length_append, List.length_take, List.length_drop, length_ofBuffer, size_extend]
  omega

end FlatImage.Buffer
