import FlatImage.Options

/-!
# The four block sizes

The sizes that have a shift are the four powers of two from the smallest size to the largest, and
the shift of a size stands for that size. Every valid run uses one of them.
-/

namespace FlatImage

namespace Geometry

/-- A size and its shift are one of four pairs. -/
theorem shiftOf?_eq_some_iff {blockSize : UInt32} {shift : UInt8} :
    shiftOf? blockSize = some shift ↔
      (blockSize = 512 ∧ shift = 0) ∨ (blockSize = 1024 ∧ shift = 1)
        ∨ (blockSize = 2048 ∧ shift = 2) ∨ (blockSize = 4096 ∧ shift = 3) := by
  constructor
  · intro h
    unfold shiftOf? at h
    split at h
    · next fits =>
      obtain ⟨low, high, power⟩ := fits
      have few : Nat.log2 blockSize.toNat < 13 := by
        apply (Nat.log2_lt _).2
        · exact Nat.lt_of_le_of_lt (UInt32.le_iff_toNat_le.1 high) (by decide)
        · have := UInt32.le_iff_toNat_le.1 low
          intro zero
          rw [zero] at this
          exact absurd this (by decide)
      have sizes : ∀ k, k < 13 → 512 ≤ 1 <<< k →
          1 <<< k = 512 ∨ 1 <<< k = 1024 ∨ 1 <<< k = 2048 ∨ 1 <<< k = 4096 := by decide
      have one := sizes _ few (by rw [power]; exact UInt32.le_iff_toNat_le.1 low)
      rw [power] at one
      obtain one | one | one | one := one
      · obtain rfl : blockSize = 512 := UInt32.toNat_inj.1 one
        exact .inl ⟨rfl, (Option.some.inj h).symm⟩
      · obtain rfl : blockSize = 1024 := UInt32.toNat_inj.1 one
        exact .inr (.inl ⟨rfl, (Option.some.inj h).symm⟩)
      · obtain rfl : blockSize = 2048 := UInt32.toNat_inj.1 one
        exact .inr (.inr (.inl ⟨rfl, (Option.some.inj h).symm⟩))
      · obtain rfl : blockSize = 4096 := UInt32.toNat_inj.1 one
        exact .inr (.inr (.inr ⟨rfl, (Option.some.inj h).symm⟩))
    · cases h
  · rintro (⟨rfl, rfl⟩ | ⟨rfl, rfl⟩ | ⟨rfl, rfl⟩ | ⟨rfl, rfl⟩) <;> decide

/-- The four sizes are those that have a shift. -/
theorem isSome_shiftOf?_iff {blockSize : UInt32} : (shiftOf? blockSize).isSome ↔
    blockSize = 512 ∨ blockSize = 1024 ∨ blockSize = 2048 ∨ blockSize = 4096 := by
  rw [Option.isSome_iff_exists]
  simp only [shiftOf?_eq_some_iff, exists_or, exists_and_left, exists_eq, and_true]

theorem ofShift?_of_shiftOf? {blockSize : UInt32} {shift : UInt8}
    (h : shiftOf? blockSize = some shift) : ofShift? shift = some blockSize := by
  obtain ⟨rfl, rfl⟩ | ⟨rfl, rfl⟩ | ⟨rfl, rfl⟩ | ⟨rfl, rfl⟩ := shiftOf?_eq_some_iff.1 h <;> decide

end Geometry

namespace Options

variable {o : Options}

theorem blockSize_of_validate (valid : o.validate = .ok ()) :
    o.blockSize = 512 ∨ o.blockSize = 1024 ∨ o.blockSize = 2048 ∨ o.blockSize = 4096 :=
  Geometry.isSome_shiftOf?_iff.1 (validate_eq_ok_iff.1 valid).1

theorem smallest_le_of_validate (valid : o.validate = .ok ()) : 512 ≤ o.blockBytes := by
  obtain h | h | h | h := blockSize_of_validate valid <;> simp [blockBytes, h]

theorem le_largest_of_validate (valid : o.validate = .ok ()) : o.blockBytes ≤ 4096 := by
  obtain h | h | h | h := blockSize_of_validate valid <;> simp [blockBytes, h]

theorem recordSize_le_of_validate (valid : o.validate = .ok ()) :
    Geometry.recordSize ≤ o.blockBytes :=
  Nat.le_trans (by decide) (smallest_le_of_validate valid)

theorem blockBytes_pos_of_validate (valid : o.validate = .ok ()) : 0 < o.blockBytes :=
  Nat.lt_of_lt_of_le (by decide) (smallest_le_of_validate valid)

end Options

end FlatImage
