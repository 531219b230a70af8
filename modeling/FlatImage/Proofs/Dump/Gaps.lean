import FlatImage.Proofs.Dump.Sweep

/-!
# Where a sweep finds gaps and overlaps

The cursor of a sweep stands behind the region before, and nothing is kept of the regions before
that one. So a block is in a gap exactly when the last region that starts at it or before it has
ended there, and a region overlaps exactly when the last one that starts before it reaches into it.
An earlier region that is longer does not matter to either.
-/

namespace FlatImage.Dump

/-- The blocks that a finding says no region has. -/
def Finding.gap? : Finding → Option (Nat × Nat)
  | gap start stop | remainder start stop => some (start, stop)
  | overlap _ | region _ => none

/-- The first block of a region that a finding says overlaps. -/
def Finding.overlap? : Finding → Option Nat
  | overlap block => some block
  | gap .. | remainder .. | region _ => none

/-- The gaps among what was found. -/
def gaps (found : List Finding) : List (Nat × Nat) := found.filterMap Finding.gap?

/-- The overlaps among what was found. -/
def overlaps (found : List Finding) : List Nat := found.filterMap Finding.overlap?

/-- The blocks of gaps, each of them from one block up to and without another. -/
def spanned (gaps : List (Nat × Nat)) : List Nat :=
  gaps.flatMap fun gap => List.range' gap.1 (gap.2 - gap.1)

/-- Where the last region that starts below a bound ends. Where none does, that is the cursor. -/
def endBelow (cursor bound : Nat) : List Region → Nat
  | [] => cursor
  | r :: rest => if r.start.toNat < bound then endBelow r.stop bound rest else cursor

/-- Of the regions that start below a bound, a region is the last. -/
structure Region.LastBelow (regions : List Region) (bound : Nat) (r : Region) : Prop where
  mem : r ∈ regions
  below : r.start.toNat < bound
  last : ∀ x ∈ regions, x.start.toNat < bound → x.start.toNat ≤ r.start.toNat

/-- The regions come in the order of their starts. -/
abbrev Ascending (regions : List Region) : Prop := regions.Pairwise fun a b => a.start < b.start

variable {cursor total block bound : Nat} {regions rest : List Region} {r x : Region}

/-! ## The last region below a bound -/

theorem endBelow_of_le (above : ∀ r ∈ regions, bound ≤ r.start.toNat) :
    endBelow cursor bound regions = cursor := by
  cases regions with
  | nil => rfl
  | cons r rest => exact if_neg (Nat.not_lt_of_le (above r List.mem_cons_self))

theorem Ascending.lt_of_mem (ascending : Ascending (r :: rest)) (mem : x ∈ rest) :
    r.start.toNat < x.start.toNat :=
  UInt32.lt_iff_toNat_lt.1 ((List.pairwise_cons.1 ascending).1 x mem)

theorem endBelow_of_lastBelow (ascending : Ascending regions)
    (last : Region.LastBelow regions bound x) : endBelow cursor bound regions = x.stop := by
  induction regions generalizing cursor with
  | nil => cases last.mem
  | cons r rest ih =>
    have first : r.start.toNat < bound := by
      obtain rfl | mem := List.mem_cons.1 last.mem
      · exact last.below
      · exact Nat.lt_trans (ascending.lt_of_mem mem) last.below
    rw [endBelow, if_pos first]
    obtain rfl | mem := List.mem_cons.1 last.mem
    · -- Whatever starts later does not start below the bound.
      refine endBelow_of_le fun y among => ?_
      by_contra past
      have early := last.last y (List.mem_cons_of_mem _ among) (Nat.lt_of_not_le past)
      exact absurd (ascending.lt_of_mem among) (Nat.not_lt_of_le early)
    · exact ih ascending.of_cons
        ⟨mem, last.below, fun y among => last.last y (List.mem_cons_of_mem _ among)⟩

/-- Some region is the last one below a bound, unless all start at it or above. -/
theorem exists_lastBelow (bound : Nat) (ascending : Ascending regions) :
    (∃ r, Region.LastBelow regions bound r) ∨ ∀ r ∈ regions, bound ≤ r.start.toNat := by
  induction regions with
  | nil => exact .inr nofun
  | cons r rest ih =>
    rcases Nat.lt_or_ge r.start.toNat bound with below | above
    · refine .inl ?_
      obtain ⟨x, last⟩ | behind := ih ascending.of_cons
      · refine ⟨x, List.mem_cons_of_mem _ last.mem, last.below,
          List.forall_mem_cons.2 ⟨?_, last.last⟩⟩
        exact fun _ => Nat.le_of_lt (ascending.lt_of_mem last.mem)
      · refine ⟨r, List.mem_cons_self, below, List.forall_mem_cons.2 ⟨fun _ => Nat.le_refl _, ?_⟩⟩
        exact fun y mem lt => absurd lt (Nat.not_lt_of_le (behind y mem))
    · refine .inr (List.forall_mem_cons.2 ⟨above, fun x mem => ?_⟩)
      exact Nat.le_trans above (Nat.le_of_lt (ascending.lt_of_mem mem))

/-- Behind the cursor, a block is behind the last region that starts below a bound when every such
region has ended. -/
theorem endBelow_le_iff (ascending : Ascending regions) (behind : cursor ≤ block) :
    endBelow cursor bound regions ≤ block
      ↔ ∀ r, Region.LastBelow regions bound r → r.stop ≤ block := by
  constructor
  · intro le r last
    rwa [endBelow_of_lastBelow ascending last] at le
  · intro ended
    obtain ⟨r, last⟩ | above := exists_lastBelow bound ascending
    · rw [endBelow_of_lastBelow ascending last]
      exact ended r last
    · rwa [endBelow_of_le above]

/-! ## Gaps -/

theorem spanned_append (front back : List (Nat × Nat)) :
    spanned (front ++ back) = spanned front ++ spanned back := List.flatMap_append

theorem mem_spanned_singleton {start stop : Nat} :
    block ∈ spanned [(start, stop)] ↔ start ≤ block ∧ block < stop := by
  rw [spanned, List.flatMap_singleton, List.mem_range'_1]
  omega

theorem gaps_before (cursor start : Nat) : gaps (Finding.before cursor start)
    = if cursor < start then [(cursor, start)] else [] := by
  unfold Finding.before
  split
  · rfl
  · split <;> rfl

theorem mem_spanned_before {start : Nat} :
    block ∈ spanned (gaps (Finding.before cursor start)) ↔ cursor ≤ block ∧ block < start := by
  rw [gaps_before]
  split
  · exact mem_spanned_singleton
  · refine ⟨nofun, fun h => ?_⟩
    omega

theorem spanned_sweep_cons : spanned (gaps (sweep cursor total (r :: rest)))
    = spanned (gaps (Finding.before cursor r.start.toNat))
      ++ spanned (gaps (sweep r.stop total rest)) := by
  rw [sweep, gaps, List.filterMap_append, spanned_append]
  rfl

/-- A block of an image is in a gap when the last region that starts at it or before it has ended
there. -/
theorem mem_spanned_sweep (ascending : Ascending regions)
    (inside : ∀ r ∈ regions, r.start.toNat < r.stop ∧ r.stop ≤ total) :
    block ∈ spanned (gaps (sweep cursor total regions))
      ↔ endBelow cursor (block + 1) regions ≤ block ∧ block < total := by
  induction regions generalizing cursor with
  | nil =>
    rw [sweep, endBelow]
    split
    · exact mem_spanned_singleton
    · refine ⟨fun mem => absurd mem List.not_mem_nil, fun h => ?_⟩
      omega
  | cons r rest ih =>
    obtain ⟨own, inside⟩ := List.forall_mem_cons.1 inside
    rw [spanned_sweep_cons, List.mem_append, mem_spanned_before, ih ascending.of_cons inside,
      endBelow]
    rcases Nat.lt_or_ge block r.start.toNat with early | late
    · -- No region has started, and afterwards the cursor stands behind this one.
      have rest : endBelow r.stop (block + 1) rest = r.stop := endBelow_of_le
        fun x mem => Nat.lt_trans early (ascending.lt_of_mem mem)
      rw [rest, if_neg (by omega)]
      omega
    · rw [if_pos (by omega)]
      exact or_iff_right fun h => absurd h.2 (Nat.not_lt_of_le late)

/-- No block is in two gaps. -/
theorem pairwise_spanned_sweep (ascending : Ascending regions)
    (inside : ∀ r ∈ regions, r.start.toNat < r.stop ∧ r.stop ≤ total) :
    (spanned (gaps (sweep cursor total regions))).Pairwise (· < ·) := by
  have single (start stop : Nat) : (spanned [(start, stop)]).Pairwise (· < ·) := by
    rw [spanned, List.flatMap_singleton]
    exact List.pairwise_lt_range' 1
  induction regions generalizing cursor with
  | nil =>
    rw [sweep]
    split
    · exact single _ _
    · exact .nil
  | cons r rest ih =>
    obtain ⟨own, within⟩ := List.forall_mem_cons.1 inside
    rw [spanned_sweep_cons]
    refine List.pairwise_append.2 ⟨?_, ih ascending.of_cons within, fun a early b late => ?_⟩
    · rw [gaps_before]
      split
      · exact single _ _
      · exact .nil
    · obtain ⟨_, early⟩ := mem_spanned_before.1 early
      obtain ⟨late, _⟩ := (mem_spanned_sweep ascending.of_cons within).1 late
      by_contra past
      -- So early none of the rest has started, and the cursor stands behind the first region.
      have rest : endBelow r.stop (b + 1) rest = r.stop := endBelow_of_le
        fun x mem => by have := ascending.lt_of_mem mem; omega
      omega

/-! ## Overlaps -/

theorem overlaps_before (cursor start : Nat) : overlaps (Finding.before cursor start)
    = if start < cursor then [start] else [] := by
  unfold Finding.before
  rcases Nat.lt_trichotomy cursor start with lt | rfl | lt
  · rw [if_pos lt, if_neg (Nat.not_lt_of_gt lt)]
    rfl
  · simp only [Nat.lt_irrefl, if_false]
    rfl
  · rw [if_neg (Nat.not_lt_of_gt lt), if_pos lt, if_pos lt]
    rfl

theorem overlaps_sweep_cons : overlaps (sweep cursor total (r :: rest))
    = overlaps (Finding.before cursor r.start.toNat) ++ overlaps (sweep r.stop total rest) := by
  rw [sweep, overlaps, List.filterMap_append]
  rfl

theorem overlaps_sweep_nil : overlaps (sweep cursor total []) = [] := by
  rw [sweep]
  split <;> rfl

/-- A region overlaps when the last one that starts before it reaches into it. -/
theorem mem_overlaps_sweep (ascending : Ascending regions) :
    block ∈ overlaps (sweep cursor total regions)
      ↔ ∃ r ∈ regions, r.start.toNat = block ∧ block < endBelow cursor block regions := by
  induction regions generalizing cursor with
  | nil =>
    rw [overlaps_sweep_nil]
    exact ⟨nofun, nofun⟩
  | cons r rest ih =>
    rw [overlaps_sweep_cons, List.mem_append, ih ascending.of_cons, overlaps_before]
    constructor
    · rintro (own | ⟨x, mem, rfl, reached⟩)
      · split at own
        · next past =>
          obtain rfl := List.mem_singleton.1 own
          refine ⟨r, List.mem_cons_self, rfl, ?_⟩
          rwa [endBelow, if_neg (Nat.lt_irrefl _)]
        · cases own
      · refine ⟨x, List.mem_cons_of_mem _ mem, rfl, ?_⟩
        rwa [endBelow, if_pos (ascending.lt_of_mem mem)]
    · rintro ⟨x, mem, rfl, reached⟩
      obtain rfl | mem := List.mem_cons.1 mem
      · rw [endBelow, if_neg (Nat.lt_irrefl _)] at reached
        rw [if_pos reached]
        exact .inl List.mem_cons_self
      · rw [endBelow, if_pos (ascending.lt_of_mem mem)] at reached
        exact .inr ⟨x, mem, rfl, reached⟩

/-- Overlaps are found in the order of the regions. -/
theorem overlaps_sweep_sublist :
    (overlaps (sweep cursor total regions)).Sublist (regions.map fun r => r.start.toNat) := by
  induction regions generalizing cursor with
  | nil =>
    rw [overlaps_sweep_nil]
    exact .slnil
  | cons r rest ih =>
    rw [overlaps_sweep_cons, overlaps_before]
    split
    · exact ih.cons_cons _
    · exact ih.cons _

theorem pairwise_overlaps_sweep (ascending : Ascending regions) :
    (overlaps (sweep cursor total regions)).Pairwise (· < ·) := by
  have starts : (regions.map fun r => r.start.toNat).Pairwise (· < ·) :=
    ascending.map _ fun _ _ lt => UInt32.lt_iff_toNat_lt.1 lt
  exact starts.sublist overlaps_sweep_sublist

end FlatImage.Dump
