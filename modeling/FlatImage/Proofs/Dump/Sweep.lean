import FlatImage.Dump.Report
import FlatImage.Proofs.Layout.Tiling
import Mathlib.Algebra.BigOperators.Group.List.Basic
import Mathlib.Algebra.GroupWithZero.Nat

/-!
# Sweeping over regions

Regions that tile the blocks of an image are all that a sweep over them finds. A sweep over regions
in the order of their starts finds an overlap exactly when some region starts before an earlier one
ends, which, as no region is empty, is when two of them have a block in common. The statistics that
are made from what was found account for every byte once.
-/

namespace FlatImage.Dump

/-- The blocks of a region. -/
def Region.extent (r : Region) : Extent := ⟨r.start.toNat, r.count.toNat⟩

/-- A block is one of those of a region. -/
def Region.Has (r : Region) (block : Nat) : Prop := r.start.toNat ≤ block ∧ block < r.stop

/-- Two regions have no block in common. -/
def Region.Disjoint (a b : Region) : Prop := ∀ block, ¬ (a.Has block ∧ b.Has block)

theorem Region.Disjoint.symm {a b : Region} (apart : a.Disjoint b) : b.Disjoint a :=
  fun block has => apart block has.symm

variable {cursor total : Nat} {regions : List Region}

/-! ## What is found -/

/-- Of regions that tile an image, the regions are all that is found. -/
theorem sweep_of_tiles (tiles : Extent.Tiles cursor (regions.map Region.extent) total) :
    sweep cursor total regions = regions.map .region := by
  induction regions generalizing cursor with
  | nil =>
    obtain rfl : cursor = total := tiles
    exact if_neg (Nat.lt_irrefl cursor)
  | cons r rest ih =>
    obtain ⟨start, behind⟩ := tiles
    obtain rfl : cursor = r.start.toNat := start.symm
    have none : Finding.before r.start.toNat r.start.toNat = [] := by simp [Finding.before]
    have rest : sweep r.stop total rest = rest.map .region := ih behind
    rw [sweep, none, List.nil_append, rest, List.map_cons]

theorem overlap_mem_before {block start : Nat} :
    .overlap block ∈ Finding.before cursor start ↔ start < cursor ∧ block = start := by
  unfold Finding.before
  rcases Nat.lt_trichotomy cursor start with lt | rfl | lt
  · simp [lt, Nat.not_lt_of_gt lt]
  · simp
  · simp [lt, Nat.not_lt_of_gt lt]

/-- No overlap is found where every region starts behind all those before it. -/
theorem forall_overlap_notMem_sweep : (∀ block, .overlap block ∉ sweep cursor total regions) ↔
    (∀ r ∈ regions, cursor ≤ r.start.toNat)
      ∧ regions.Pairwise fun a b => a.stop ≤ b.start.toNat := by
  induction regions generalizing cursor with
  | nil =>
    refine ⟨fun _ => ⟨nofun, .nil⟩, fun _ block mem => ?_⟩
    rw [sweep] at mem
    split at mem
    · cases List.mem_singleton.1 mem
    · cases mem
  | cons r rest ih =>
    have first : (∀ block, Finding.overlap block ∉ sweep cursor total (r :: rest)) ↔
        cursor ≤ r.start.toNat ∧ ∀ block, Finding.overlap block ∉ sweep r.stop total rest := by
      simp only [sweep, List.mem_append, List.mem_cons, reduceCtorEq, false_or, not_or,
        overlap_mem_before, forall_and, not_and]
      refine and_congr_left fun _ => ⟨fun h => ?_, fun le block lt => ?_⟩
      · by_contra past
        exact h r.start.toNat (Nat.lt_of_not_le past) rfl
      · exact absurd lt (Nat.not_lt_of_le le)
    rw [first, ih, List.forall_mem_cons, List.pairwise_cons]
    constructor
    · rintro ⟨le, behind, apart⟩
      have past : cursor ≤ r.stop := Nat.le_trans le (Nat.le_add_right ..)
      exact ⟨⟨le, fun x mem => Nat.le_trans past (behind x mem)⟩, behind, apart⟩
    · rintro ⟨⟨le, _⟩, behind, apart⟩
      exact ⟨le, behind, apart⟩

/-- Regions in the order of their starts have no blocks in common when each one ends before the next
one starts. -/
theorem pairwise_disjoint_iff (some : ∀ r ∈ regions, 0 < r.count.toNat)
    (ascending : regions.Pairwise fun a b => a.start < b.start) :
    regions.Pairwise Region.Disjoint ↔ regions.Pairwise fun a b => a.stop ≤ b.start.toNat := by
  refine ⟨fun disjoint => ?_, fun apart => apart.imp fun le block has => ?_⟩
  · refine (disjoint.and ascending).imp_of_mem fun {a b} _ mem both => ?_
    obtain ⟨disjoint, lt⟩ := both
    by_contra past
    -- The first block of the later region is one of the earlier one.
    refine disjoint b.start.toNat ⟨⟨Nat.le_of_lt lt, Nat.lt_of_not_le past⟩, Nat.le_refl _, ?_⟩
    exact Nat.lt_add_of_pos_right (some b mem)
  · obtain ⟨⟨_, before⟩, behind, _⟩ := has
    exact absurd (Nat.lt_of_lt_of_le before (Nat.le_trans le behind)) (Nat.lt_irrefl _)

/-- Tiles that are not empty come in the order of their starts. -/
theorem ascending_of_tiles (tiles : Extent.Tiles cursor (regions.map Region.extent) total)
    (some : ∀ r ∈ regions, 0 < r.count.toNat) :
    regions.Pairwise fun a b => a.start < b.start := by
  induction regions generalizing cursor with
  | nil => exact .nil
  | cons r rest ih =>
    obtain ⟨start, behind⟩ := tiles
    obtain ⟨own, some⟩ := List.forall_mem_cons.1 some
    refine List.pairwise_cons.2 ⟨fun x mem => ?_, ih behind some⟩
    have after : cursor + r.count.toNat ≤ x.start.toNat :=
      (behind.within (List.mem_map_of_mem mem)).1
    have start : r.start.toNat = cursor := start
    exact UInt32.lt_iff_toNat_lt.2 (by omega)

/-! ## Statistics -/

/-- The bytes of one use. -/
def amount (usage : Usage) (shares : List (Usage × Nat)) : Nat :=
  ((shares.filter fun share => share.1 = usage).map Prod.snd).sum

theorem amount_cons (usage : Usage) (share : Usage × Nat) (shares : List (Usage × Nat)) :
    amount usage (share :: shares)
      = (if share.1 = usage then share.2 else 0) + amount usage shares := by
  unfold amount
  by_cases is : share.1 = usage
  · simp [is]
  · simp [is]

theorem amount_eq (usage : Usage) (shares : List (Usage × Nat)) :
    amount usage shares = (total? usage shares).getD 0 := by
  unfold amount total?
  have foldr (own : List (Usage × Nat)) :
      own.foldr (fun share sum => share.2 + sum) 0 = (own.map Prod.snd).sum := by
    induction own with
    | nil => rfl
    | cons share own ih => rw [List.foldr_cons, ih, List.map_cons, List.sum_cons]
  split
  · next none => rw [none]; rfl
  · exact (foldr _).symm

/-- The statistics are made of the bytes of all uses. -/
theorem sum_totals_eq_amounts (usages : List Usage) (shares : List (Usage × Nat)) :
    ((usages.filterMap fun usage => (total? usage shares).map (usage, ·)).map Prod.snd).sum
      = (usages.map (amount · shares)).sum := by
  induction usages with
  | nil => rfl
  | cons usage usages ih =>
    rw [List.map_cons, List.sum_cons, ← ih, amount_eq, List.filterMap_cons]
    cases total? usage shares with
    | none => simp
    | some bytes => simp

/-- The statistics account for all shares. -/
theorem sum_totals (shares : List (Usage × Nat)) :
    ((totals shares).map Prod.snd).sum = (shares.map Prod.snd).sum := by
  rw [totals, sum_totals_eq_amounts]
  induction shares with
  | nil => rfl
  | cons share shares ih =>
    rw [List.map_cons, List.sum_cons, ← ih]
    -- A share counts for its own use and for no other.
    simp only [Usage.all, List.map_cons, List.map_nil, List.sum_cons, List.sum_nil, amount_cons]
    obtain ⟨usage, bytes⟩ := share
    cases usage <;> simp only [reduceCtorEq, if_true, if_false] <;> omega

/-- Only uses that have shares are in the statistics. -/
theorem exists_share_of_mem_totals {shares : List (Usage × Nat)} {total : Usage × Nat}
    (mem : total ∈ totals shares) : ∃ share ∈ shares, share.1 = total.1 := by
  obtain ⟨usage, _, found⟩ := List.mem_filterMap.1 mem
  obtain ⟨bytes, sum, rfl⟩ := Option.map_eq_some_iff.1 found
  unfold total? at sum
  split at sum
  · cases sum
  · next some =>
    obtain ⟨share, mem⟩ := List.exists_mem_of_ne_nil _ some
    obtain ⟨mem, is⟩ := List.mem_filter.1 mem
    exact ⟨share, mem, of_decide_eq_true is⟩

variable {blockSize : Nat}

/-- The superblock's block and the regions account for all their bytes, where no region is smaller
than what it holds. -/
theorem sum_shares (fits : ∀ r ∈ regions, r.used ≤ r.length blockSize) :
    ((shares blockSize (regions.map .region)).map Prod.snd).sum
      = blockSize + (regions.map (Region.length blockSize)).sum := by
  rw [shares, List.map_cons, List.sum_cons]
  congr 1
  induction regions with
  | nil => rfl
  | cons r rest ih =>
    obtain ⟨own, fits⟩ := List.forall_mem_cons.1 fits
    have padded : r.used + r.padding blockSize = r.length blockSize := Nat.add_sub_cancel' own
    rw [List.map_cons, List.flatMap_cons, List.map_append, List.sum_append, ih fits, List.map_cons,
      List.sum_cons, ← padded]
    simp [Finding.shares]

theorem usage_ne_unassigned {share : Usage × Nat}
    (mem : share ∈ shares blockSize (regions.map .region)) : share.1 ≠ .unassigned := by
  obtain rfl | mem := List.mem_cons.1 mem
  · exact nofun
  · obtain ⟨_, mem, share⟩ := List.mem_flatMap.1 mem
    obtain ⟨r, _, rfl⟩ := List.mem_map.1 mem
    simp only [Finding.shares, List.mem_cons, List.not_mem_nil, or_false] at share
    obtain rfl | rfl := share
    · unfold Region.usage
      split <;> exact nofun
    · exact nofun

/-- Tiles have as many blocks as there are between their ends. -/
theorem sum_length_of_tiles (tiles : Extent.Tiles cursor (regions.map Region.extent) total) :
    cursor * blockSize + (regions.map (Region.length blockSize)).sum = total * blockSize := by
  induction regions generalizing cursor with
  | nil =>
    obtain rfl : cursor = total := tiles
    rfl
  | cons r rest ih =>
    obtain ⟨_, behind⟩ := tiles
    rw [List.map_cons, List.sum_cons, ← Nat.add_assoc, Region.length, ← Nat.add_mul]
    exact ih behind

end FlatImage.Dump
