import FlatImage.Bytes

/-!
# Numbers in bytes, highest first

All numbers of an image are written in this order. The two directions undo each other: a number
that fits its width is read back as it was, and so are bytes of any width.
-/

namespace FlatImage.BigEndian

/-- The lowest `width` bytes of a number, highest first. -/
def encode : (width n : Nat) → Bytes
  | 0, _ => []
  | width + 1, n => encode width (n / 256) ++ [UInt8.ofNat n]

/-- One more than the largest number that fits into `width` bytes. -/
def bound : (width : Nat) → Nat
  | 0 => 1
  | width + 1 => 256 * bound width

/-- The number that bytes stand for. -/
def decode (bytes : Bytes) : Nat := bytes.foldl (fun high b => 256 * high + b.toNat) 0

@[simp] theorem length_encode (width n : Nat) : (encode width n).length = width := by
  induction width generalizing n with
  | zero => rfl
  | succ width ih => simp [encode, ih]

@[simp] theorem decode_concat (bytes : Bytes) (b : UInt8) :
    decode (bytes ++ [b]) = 256 * decode bytes + b.toNat := by
  simp [decode]

theorem decode_encode {width n : Nat} (h : n < bound width) : decode (encode width n) = n := by
  induction width generalizing n with
  | zero =>
    obtain rfl : n = 0 := Nat.lt_one_iff.1 h
    rfl
  | succ width ih =>
    have high : n / 256 < bound width := Nat.div_lt_of_lt_mul h
    simp [encode, ih high]
    omega

theorem encode_decode (bytes : Bytes) : encode bytes.length (decode bytes) = bytes := by
  rw [← List.reverse_reverse bytes]
  induction bytes.reverse with
  | nil => rfl
  | cons b r ih =>
    have low : UInt8.ofNat (256 * decode r.reverse + b.toNat) = b := by
      apply UInt8.toNat_inj.1
      simp
    have high : (256 * decode r.reverse + b.toNat) / 256 = decode r.reverse := by
      have := b.toNat_lt
      omega
    simp only [List.length_reverse] at ih
    simp [encode, low, high, ih]

theorem decode_lt (bytes : Bytes) : decode bytes < bound bytes.length := by
  rw [← List.reverse_reverse bytes]
  induction bytes.reverse with
  | nil => decide
  | cons b r ih =>
    have := b.toNat_lt
    simp only [List.length_reverse] at ih
    simp only [List.reverse_cons, decode_concat, List.length_append, List.length_reverse,
      List.length_singleton, bound]
    omega

/-- More bytes hold more numbers. -/
theorem bound_mono {m n : Nat} (h : m ≤ n) : bound m ≤ bound n := by
  induction h with
  | refl => exact Nat.le_refl _
  | step _ ih =>
    simp only [bound]
    omega

end FlatImage.BigEndian
