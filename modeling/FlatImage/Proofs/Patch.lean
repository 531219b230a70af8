import FlatImage.Blob

/-!
# Patches of byte strings

What a write does to a content is described once, on lists: the content with a piece put at an
offset. A content that is too short grows, with zeros in any gap. Writes that follow each other
without a gap are one write of all their bytes, and whatever lies outside a piece stays.
-/

namespace FlatImage.Bytes

/-- Bytes filled up with zeros to at least `n`. -/
def padTo (n : Nat) (bytes : Bytes) : Bytes := bytes ++ List.replicate (n - bytes.length) 0

/-- A content with a piece put at an offset, and zeros in any gap. -/
def put (content : Bytes) (offset : Nat) (piece : Bytes) : Bytes :=
  content.take offset ++ List.replicate (offset - content.length) 0 ++ piece
    ++ content.drop (offset + piece.length)

variable {content : Bytes} {offset : Nat} {piece : Bytes}

/-! ## Filling up -/

@[simp] theorem length_padTo (n : Nat) (bytes : Bytes) :
    (padTo n bytes).length = max n bytes.length := by
  simp only [padTo, List.length_append, List.length_replicate]
  omega

theorem length_padTo_of_le {n : Nat} {bytes : Bytes} (h : bytes.length ≤ n) :
    (padTo n bytes).length = n := by
  rw [length_padTo, Nat.max_eq_left h]

/-! ## Putting -/

theorem length_put (content : Bytes) (offset : Nat) (piece : Bytes) :
    (content.put offset piece).length = max content.length (offset + piece.length) := by
  simp only [put, List.length_append, List.length_take, List.length_replicate, List.length_drop]
  omega

private theorem length_front (content : Bytes) (offset : Nat) :
    (content.take offset ++ List.replicate (offset - content.length) (0 : UInt8)).length
      = offset := by
  simp only [List.length_append, List.length_take, List.length_replicate]
  omega

theorem put_of_le (h : offset ≤ content.length) : content.put offset piece
    = content.take offset ++ piece ++ content.drop (offset + piece.length) := by
  rw [put, Nat.sub_eq_zero_of_le h, List.replicate_zero, List.append_nil]

@[simp] theorem put_nil_of_le (h : offset ≤ content.length) : content.put offset [] = content := by
  rw [put_of_le h, List.append_nil, List.length_nil, Nat.add_zero, List.take_append_drop]

theorem take_put {n : Nat} (before : n ≤ offset) (within : n ≤ content.length) :
    (content.put offset piece).take n = content.take n := by
  rw [put, List.append_assoc, List.append_assoc, List.take_append_of_le_length
    (by rw [List.length_take]; omega), List.take_take, Nat.min_eq_left before]

theorem drop_put {n : Nat} (behind : offset + piece.length ≤ n) :
    (content.put offset piece).drop n = content.drop n := by
  have front := length_front content offset
  rw [put, List.drop_append, List.drop_eq_nil_of_le
    (by rw [List.length_append, front]; exact behind), List.nil_append, List.length_append,
    front, List.drop_drop]
  congr 1
  omega

/-- Up to the end of the piece, the result is what was before it and the piece. -/
theorem take_put_end (h : offset ≤ content.length) :
    (content.put offset piece).take (offset + piece.length)
      = content.take offset ++ piece := by
  have front : (content.take offset ++ piece).length = offset + piece.length := by
    rw [List.length_append, List.length_take, Nat.min_eq_left h]
  rw [put_of_le h, List.take_append_of_le_length (Nat.le_of_eq front.symm), ← front,
    List.take_length]

/-- A piece put at the end of a content that it does not make longer. -/
theorem put_of_length_eq (h : content.length = offset + piece.length) :
    content.put offset piece = content.take offset ++ piece := by
  have within : offset ≤ content.length := by omega
  rw [put_of_le within, List.drop_eq_nil_of_le (Nat.le_of_eq h), List.append_nil]

/-- A piece put over zeros at the start is filled up by those that are left. -/
theorem put_zero_replicate {n : Nat} (short : piece.length ≤ n) (rest : Bytes) :
    put (List.replicate n 0 ++ rest) 0 piece = padTo n piece ++ rest := by
  rw [put_of_le (Nat.zero_le _), List.take_zero, List.nil_append, Nat.zero_add,
    List.drop_append_of_le_length (by rwa [List.length_replicate]), List.drop_replicate, padTo,
    List.append_assoc]

/-- Two pieces of which the second follows the first are one piece. -/
theorem put_put (content : Bytes) (offset : Nat) (first second : Bytes) :
    (content.put offset first).put (offset + first.length) second
      = content.put offset (first ++ second) := by
  have front := length_front content offset
  have reaches : offset + first.length ≤ (content.put offset first).length := by
    rw [length_put]
    exact Nat.le_max_right ..
  rw [put_of_le reaches, drop_put (Nat.le_add_right ..)]
  have kept : (content.put offset first).take (offset + first.length)
      = content.take offset ++ List.replicate (offset - content.length) 0 ++ first := by
    have all : offset + first.length = (content.take offset
        ++ List.replicate (offset - content.length) 0 ++ first).length := by
      rw [List.length_append, front]
    rw [put, all, List.take_left]
  rw [kept, put, List.append_assoc _ first second, List.length_append, ← Nat.add_assoc]

end FlatImage.Bytes

namespace FlatImage.Blob

theorem toList_overwrite_eq_put (b : Blob) (offset : Nat) (piece : Blob) :
    (b.overwrite offset piece).toList = b.toList.put offset piece.toList := by
  have gap : min (offset - b.size) (offset + piece.size - b.size) = offset - b.size := by omega
  have filled : offset + piece.size - b.size - (offset + piece.size - b.size) = 0 :=
    Nat.sub_self _
  rw [toList_overwrite, toList_grow, Bytes.put, List.take_append, List.drop_append,
    List.take_replicate, List.drop_replicate, length_toList, length_toList, gap, filled,
    List.replicate_zero, List.append_nil]

end FlatImage.Blob
