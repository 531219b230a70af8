import FlatImage.Image

/-!
# Why traversals of an image end

Directory records can form cycles. Whoever goes through an image therefore enters no table twice,
and because a table starts before the content, there are no more tables to enter than there are
blocks before it. `unseen` counts those that are left.
-/

namespace FlatImage.Image

/-- How many block numbers below a bound have not been seen. -/
def unseen (bound : Nat) (seen : Nat → Bool) : Nat :=
  (List.range bound).countP fun b => !seen b

/-- Seeing more leaves no more unseen. -/
theorem unseen_le {bound : Nat} {seen seen' : Nat → Bool} (more : ∀ b, seen b → seen' b) :
    unseen bound seen' ≤ unseen bound seen := by
  apply List.countP_mono_left
  intro b _ h
  cases hb : seen b with
  | false => rfl
  | true => simp [more b hb] at h

/-- Seeing a block for the first time leaves fewer unseen. -/
theorem unseen_lt {bound b : Nat} {seen seen' : Nat → Bool} (below : b < bound)
    (more : ∀ b, seen b → seen' b) (old : seen b = false) (new : seen' b = true) :
    unseen bound seen' < unseen bound seen := by
  induction bound with
  | zero => omega
  | succ bound ih =>
    unfold unseen at *
    rw [List.range_succ, List.countP_append, List.countP_append]
    rcases Nat.lt_or_ge b bound with lt | ge
    · have h := ih lt
      have last : List.countP (fun b => !seen' b) [bound]
          ≤ List.countP (fun b => !seen b) [bound] := by
        apply List.countP_mono_left
        intro c _ hc
        cases h : seen c with
        | false => rfl
        | true => simp [more c h] at hc
      omega
    · obtain rfl : b = bound := by omega
      have h : unseen b seen' ≤ unseen b seen := unseen_le more
      unfold unseen at h
      have gone : List.countP (fun b => !seen' b) [b] = 0 := by simp [new]
      have had : List.countP (fun b => !seen b) [b] = 1 := by simp [old]
      omega

theorem stop_lt_of_blocks {img : Image} {start count : UInt32} {bytes : ByteArray}
    (h : img.blocks start count = .ok bytes) : start.toNat + count.toNat < UInt32.size := by
  unfold blocks at h
  dsimp only at h
  split at h
  · cases h
  · omega

/-- A table that can be read lies between the superblock and the content. -/
theorem inside_of_table {img : Image} {start entries : UInt32} {records : List Record}
    (h : img.table start entries = .ok records) :
    1 ≤ start.toNat
      ∧ start.toNat + Geometry.tableBlocks entries.toNat img.blockSize.toNat
        ≤ img.superblock.dataStart.toNat := by
  simp only [table, bind, Except.bind, Fault.require] at h
  split at h
  · cases h
  · next fits =>
    split at fits
    · next small =>
      simp only [decide_eq_true_eq] at small
      have exact : (UInt32.ofNat (Geometry.tableBlocks entries.toNat img.blockSize.toNat)).toNat
          = Geometry.tableBlocks entries.toNat img.blockSize.toNat :=
        UInt32.toNat_ofNat_of_lt' small
      split at h
      · cases h
      · next checks =>
        simp only [exact, not_or] at checks
        obtain ⟨some, end_le, _⟩ := checks
        split at h
        · cases h
        · next found =>
          -- The end was compared after it had been cut off, but no blocks end behind that.
          have stop := stop_lt_of_blocks found
          rw [exact] at stop
          have behind : start.toNat ≠ 0 := fun zero => some (UInt32.toNat_inj.1 zero)
          omega
    · cases fits

theorem start_lt_of_table {img : Image} {start entries : UInt32} {records : List Record}
    (h : img.table start entries = .ok records) :
    start.toNat < img.superblock.dataStart.toNat := by
  have one := Geometry.one_le_tableBlocks entries.toNat img.blockSize.toNat
  have inside := (inside_of_table h).2
  omega

/-- A directory that can be read has its table before the content. -/
theorem start_lt_of_directory {img : Image} {record : Record} {records : List Record}
    (h : img.directory record = .ok records) :
    record.start.toNat < img.superblock.dataStart.toNat := by
  simp only [directory, bind, Except.bind] at h
  split at h
  · cases h
  · split at h
    · cases h
    · split at h
      · cases h
      · exact start_lt_of_table h

end FlatImage.Image
