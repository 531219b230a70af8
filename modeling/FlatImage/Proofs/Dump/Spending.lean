import FlatImage.Proofs.Dump.Gaps
import FlatImage.Proofs.Dump.Specimen
import FlatImage.Proofs.Dump.Success

/-!
# What the statistics of a dump account for

Where no two claims have a block in common, the shares of the regions and of the gaps between them
add up to the place where the cursor of the sweep ends. The gap behind the last region is marked and
counted for nothing, so that the statistics account for every byte up to the end of the last region,
and for all bytes of an image only if its last block is claimed.
-/

namespace FlatImage.Dump

/-- Where a sweep leaves its cursor. -/
def lastStop (cursor : Nat) : List Region → Nat
  | [] => cursor
  | r :: rest => lastStop r.stop rest

variable {bytes : ByteArray} {img : Image} {claimed found : List Region}
variable {cursor total blockSize : Nat} {regions : List Region}

/-- The bytes that findings account for. -/
abbrev spent (blockSize : Nat) (found : List Finding) : Nat :=
  ((found.flatMap (Finding.shares blockSize)).map Prod.snd).sum

theorem spent_append (front back : List Finding) :
    spent blockSize (front ++ back) = spent blockSize front + spent blockSize back := by
  rw [spent, List.flatMap_append, List.map_append, List.sum_append]

/-- A gap is shared out up to the start of the region behind it. -/
theorem spent_before {start : Nat} (le : cursor ≤ start) :
    spent blockSize (Finding.before cursor start) + cursor * blockSize = start * blockSize := by
  unfold Finding.before
  obtain rfl | lt := Nat.eq_or_lt_of_le le
  · simp [spent]
  · rw [if_pos lt]
    simp only [spent, Finding.shares, List.flatMap_cons, List.flatMap_nil, List.append_nil,
      List.map_cons, List.map_nil, List.sum_cons, List.sum_nil, Nat.add_zero]
    rw [← Nat.add_mul, Nat.sub_add_cancel le]

theorem spent_region {r : Region} (fits : r.used ≤ r.length blockSize) :
    spent blockSize [.region r] + r.start.toNat * blockSize = r.stop * blockSize := by
  have padded : r.used + r.padding blockSize = r.length blockSize := Nat.add_sub_cancel' fits
  simp only [spent, Finding.shares, List.flatMap_cons, List.flatMap_nil, List.append_nil,
    List.map_cons, List.map_nil, List.sum_cons, List.sum_nil, Nat.add_zero, padded]
  rw [Region.length, Region.stop, Nat.add_comm, ← Nat.add_mul]

/-- Over regions that start behind one another, everything up to the end of the last one is shared
out. -/
theorem spent_sweep (behind : ∀ r ∈ regions, cursor ≤ r.start.toNat)
    (apart : regions.Pairwise fun a b => a.stop ≤ b.start.toNat)
    (fits : ∀ r ∈ regions, r.used ≤ r.length blockSize) :
    spent blockSize (sweep cursor total regions) + cursor * blockSize
      = lastStop cursor regions * blockSize := by
  induction regions generalizing cursor with
  | nil =>
    have nothing : spent blockSize (sweep cursor total []) = 0 := by
      rw [sweep]
      split <;> rfl
    rw [nothing, Nat.zero_add, lastStop]
  | cons r rest ih =>
    obtain ⟨after, apart⟩ := List.pairwise_cons.1 apart
    obtain ⟨own, fits⟩ := List.forall_mem_cons.1 fits
    have gap : spent blockSize _ + _ = _ := spent_before (behind r List.mem_cons_self)
    have region := spent_region own
    have others := ih after apart fits
    have split : spent blockSize (sweep cursor total (r :: rest))
        = spent blockSize (Finding.before cursor r.start.toNat)
          + (spent blockSize [.region r] + spent blockSize (sweep r.stop total rest)) := by
      rw [← spent_append, ← spent_append]
      rfl
    rw [split, lastStop]
    omega

/-- Of regions that start behind one another, the last one ends last. -/
theorem le_lastStop (behind : ∀ r ∈ regions, cursor ≤ r.start.toNat)
    (apart : regions.Pairwise fun a b => a.stop ≤ b.start.toNat) :
    cursor ≤ lastStop cursor regions ∧ ∀ r ∈ regions, r.stop ≤ lastStop cursor regions := by
  induction regions generalizing cursor with
  | nil => exact ⟨Nat.le_refl _, nofun⟩
  | cons r rest ih =>
    obtain ⟨after, apart⟩ := List.pairwise_cons.1 apart
    obtain ⟨own, others⟩ := ih after apart
    have le : cursor ≤ r.stop :=
      Nat.le_trans (behind r List.mem_cons_self) (Nat.le_add_right ..)
    exact ⟨Nat.le_trans le own, List.forall_mem_cons.2 ⟨own, others⟩⟩

theorem exists_stop_eq_lastStop (cursor : Nat) (r : Region) (rest : List Region) :
    ∃ x ∈ r :: rest, x.stop = lastStop cursor (r :: rest) := by
  induction rest generalizing r cursor with
  | nil => exact ⟨r, List.mem_cons_self, rfl⟩
  | cons next rest ih =>
    obtain ⟨x, mem, stop⟩ := ih r.stop next
    exact ⟨x, List.mem_cons_of_mem _ mem, stop⟩

/-- The bytes that the statistics of an image with these regions account for. -/
def accounted (img : Image) (found : List Region) : Nat :=
  ((totals (shares img.blockSize.toNat (findings img found))).map Prod.snd).sum

namespace Success

variable (h : Success bytes img claimed found)

include h

theorem apart_of_disjoint (disjoint : claimed.Pairwise Region.Disjoint) :
    found.Pairwise fun a b => a.stop ≤ b.start.toNat := by
  have some : ∀ r ∈ found, 0 < r.count.toNat := fun r mem => (h.found_within r mem).some
  exact (pairwise_disjoint_iff some h.ascending).1
    ((h.perm.pairwise_iff Region.Disjoint.symm).2 disjoint)

/-- Some claim ends where the sweep leaves its cursor. -/
theorem exists_last : ∃ r ∈ claimed, r.stop = lastStop 1 found := by
  obtain ⟨_, _, _, _, rfl⟩ := h.all
  cases found with
  | nil => cases h.perm.symm.subset List.mem_cons_self
  | cons r rest =>
    obtain ⟨x, mem, stop⟩ := exists_stop_eq_lastStop 1 r rest
    exact ⟨x, h.perm.mem_iff.1 mem, stop⟩

theorem accounted_eq (apart : found.Pairwise fun a b => a.stop ≤ b.start.toNat) :
    accounted img found = lastStop 1 found * img.blockSize.toNat := by
  have swept : spent _ (findings img found) + _ = _ := spent_sweep
    (fun r mem => (h.found_within r mem).behind) apart fun r mem => (h.found_within r mem).fits
  rw [Nat.one_mul, Nat.add_comm] at swept
  exact (sum_totals _).trans swept

end Success

/-- The statistics of a dump account for every byte in front of the end of the last claim, where no
two claims have a block in common. So they account for all bytes of the image exactly when the last
claim ends where the image does. -/
theorem sum_totals_of_report (succeeds : (report bytes).failure = none) :
    ∃ img claimed found, Success bytes img claimed found
      ∧ (report bytes).text = lines (reportLines img bytes.size (findings img found))
      ∧ (claimed.Pairwise Region.Disjoint → ∃ last, (∃ r ∈ claimed, r.stop = last)
        ∧ (∀ r ∈ claimed, r.stop ≤ last) ∧ last ≤ img.superblock.totalBlocks.toNat
        ∧ accounted img found
          + (img.superblock.totalBlocks.toNat - last) * img.blockSize.toNat = bytes.size
        ∧ (accounted img found = bytes.size ↔ last = img.superblock.totalBlocks.toNat)) := by
  obtain ⟨img, claimed, found, h⟩ := success_of_report succeeds
  refine ⟨img, claimed, found, h, h.text, ?_⟩
  intro disjoint
  have opened := Image.opened_of_ofBytes h.opened
  have apart := h.apart_of_disjoint disjoint
  obtain ⟨r, mem, stop⟩ := h.exists_last
  have inside := stop ▸ (h.within r mem).inside
  have ends := (le_lastStop (fun r mem => (h.found_within r mem).behind) apart).2
  have size := opened.size
  rw [opened.bytes_eq] at size
  refine ⟨_, ⟨r, mem, stop⟩, fun x mem => ends x (h.perm.mem_iff.2 mem), inside, ?_, ?_⟩
  · rw [h.accounted_eq apart, size, ← Nat.add_mul, Nat.add_sub_cancel' inside]
  · rw [h.accounted_eq apart, size]
    exact Nat.mul_left_inj (Nat.ne_of_gt opened.pos)

/-! ## Two claims, and a gap on either side of the second -/

/-- A file of one block, with a block in front of it that nobody claims. -/
def spacedRecord : Record := sharedRecord [0x61] 512 3 1

/-- The claims of the root directory and of this file. -/
def spacedRegions : List Region :=
  [rootRegion (specimen [spacedRecord] 3) [spacedRecord],
    ⟨spacedRecord.start, spacedRecord.count, Path.join rootPath spacedRecord.name,
      .data spacedRecord⟩]

theorem success_spaced : Success (specimenBytes [spacedRecord] 3).toBuffer
    (specimen [spacedRecord] 3) spacedRegions spacedRegions := by
  have opened := ofBytes_specimen [spacedRecord] 3 (by decide) (by decide)
  have sound := (Image.opened_of_ofBytes opened).toSound
  have root := root_specimen [spacedRecord] 3 (by decide) (by decide)
  have content : (specimen [spacedRecord] 3).fileData spacedRecord = .ok _ :=
    (Image.decided_fileData sound spacedRecord).eq_ok
      ⟨by decide, rfl, by decide, fun _ => by decide⟩
  have listed : Listed (specimen [spacedRecord] 3) [(rootPath, spacedRecord)] _ :=
    .file rfl (by decide) (by decide) content .nil
  exact success_of_claimed opened ⟨_, _, root, listed, rfl⟩ (by decide)

/-- Of five blocks the statistics account for four, with the gap between the claims. -/
theorem sum_totals_of_report_spaced :
    (report (specimenBytes [spacedRecord] 3).toBuffer).failure = none
      ∧ ∃ img claimed found, Success (specimenBytes [spacedRecord] 3).toBuffer img claimed found
        ∧ claimed.length = 2 ∧ claimed.Pairwise Region.Disjoint
        ∧ (report (specimenBytes [spacedRecord] 3).toBuffer).text
          = lines (reportLines img (specimenBytes [spacedRecord] 3).toBuffer.size
            (findings img found))
        ∧ accounted img found + 512 = (specimenBytes [spacedRecord] 3).toBuffer.size
        ∧ accounted img found ≠ (specimenBytes [spacedRecord] 3).toBuffer.size := by
  obtain ⟨img, claimed, found, h, text, sums⟩ := sum_totals_of_report success_spaced.ends
  -- The claims are those of the root directory and of the file, in whatever order they are found.
  obtain rfl : specimen [spacedRecord] 3 = img :=
    Except.ok.inj (success_spaced.opened.symm.trans h.opened)
  obtain rfl : spacedRegions = found :=
    Except.ok.inj (success_spaced.listed.symm.trans h.listed)
  have disjoint : claimed.Pairwise Region.Disjoint := by
    refine (h.perm.pairwise_iff Region.Disjoint.symm).1 ?_
    exact (pairwise_disjoint_iff (by decide) h.ascending).2 (by decide)
  obtain ⟨last, ⟨r, mem, stop⟩, upper, _, sum, all⟩ := sums disjoint
  have latest : last = 4 := by
    have file := upper _ (h.perm.mem_iff.1 (List.mem_cons_of_mem _ List.mem_cons_self))
    have both : ∀ r ∈ spacedRegions, r.stop ≤ 4 := by decide
    exact Nat.le_antisymm (stop ▸ both r (h.perm.mem_iff.2 mem)) file
  subst latest
  refine ⟨success_spaced.ends, _, claimed, _, h, h.perm.length_eq.symm, disjoint, text, sum, ?_⟩
  exact fun whole => absurd (all.1 whole) (by decide)

/-! ## A block behind the last claim -/

theorem success_trailing : Success (specimenBytes [] 1).toBuffer (specimen [] 1)
    [rootRegion (specimen [] 1) []] [rootRegion (specimen [] 1) []] := by
  have opened := ofBytes_specimen [] 1 (by decide) (by decide)
  have root := root_specimen [] 1 (by decide) (by decide)
  have all : Claimed (specimen [] 1) [rootRegion (specimen [] 1) []] := ⟨_, _, root, .nil, rfl⟩
  exact success_of_claimed opened all (List.pairwise_singleton _ _)

/-- An image of three blocks, of which the last is claimed by nobody. Its claims are disjoint, and
the statistics account for two blocks. -/
theorem report_trailing_misses : ∃ img claimed found,
    Success (specimenBytes [] 1).toBuffer img claimed found
      ∧ claimed.Pairwise Region.Disjoint
      ∧ (report (specimenBytes [] 1).toBuffer).text
        = lines (reportLines img (specimenBytes [] 1).toBuffer.size (findings img found))
      ∧ accounted img found = 1024
      ∧ (specimenBytes [] 1).toBuffer.size = 1536 := by
  have h := success_trailing
  have size : (specimenBytes [] 1).toBuffer.size = 1536 := by
    rw [Bytes.size_toBuffer, length_specimenBytes (Nat.zero_le _)]
  exact ⟨_, _, _, h, List.pairwise_singleton _ _, h.text, by decide, size⟩

end FlatImage.Dump
