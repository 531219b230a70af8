import FlatImage.Proofs.Dump.Gaps
import FlatImage.Proofs.Dump.Specimen
import FlatImage.Proofs.Dump.Success

/-!
# What the marks of a dump say

The lines that mark gaps and overlaps are those of the gaps and overlaps that the sweep finds, and
no other line looks like one. They are right where every region ends behind those that start before
it. A region within a longer one makes the sweep forget the longer one: blocks behind the short
region are then marked as unassigned, and a region that starts there is not marked as overlapping,
although the longer region has all these blocks.
-/

namespace FlatImage.Dump

/-- The line that marks a gap. -/
def gapLine (gap : Nat × Nat) : String := s!"*** Unassigned blocks {gap.1}..{gap.2}"

/-- The line that marks an overlap. -/
def overlapLine (block : Nat) : String := s!"*** Overlapping regions at block {block}"

/-- What a line that marks a gap starts with. -/
def gapMark : List Char := "*** Unassigned blocks ".toList

/-- The lines of a text that start with a mark. -/
def linesWith (mark : List Char) (text : String) : List (List Char) :=
  (text.toList.splitOn '\n').filter (mark.isPrefixOf ·)

/-- Gaps and overlaps are what they are called, for an image of so many blocks: the blocks of the
gaps are those behind the superblock that nobody claims, and overlaps are where a region starts
within another one that starts before it. -/
structure Exact (total : Nat) (claimed : List Region) (gaps : List (Nat × Nat))
    (overlaps : List Nat) : Prop where
  gap (block : Nat) : block ∈ spanned gaps
    ↔ (1 ≤ block ∧ block < total) ∧ ∀ r ∈ claimed, ¬ r.Has block
  overlap (block : Nat) : block ∈ overlaps
    ↔ ∃ r ∈ claimed, r.start.toNat = block ∧ ∃ p ∈ claimed, p.start < r.start ∧ p.Has block

/-- Gaps and overlaps are what they are called as far as the last region says that starts at or
before a block. -/
structure ExactToLast (total : Nat) (claimed : List Region) (gaps : List (Nat × Nat))
    (overlaps : List Nat) : Prop where
  gap (block : Nat) : block ∈ spanned gaps ↔ (1 ≤ block ∧ block < total)
    ∧ ∀ r, Region.LastBelow claimed (block + 1) r → ¬ r.Has block
  overlap (block : Nat) : block ∈ overlaps ↔ ∃ r ∈ claimed, r.start.toNat = block
    ∧ ∃ p, Region.LastBelow claimed block p ∧ p.Has block

/-- No region ends before one that starts before it. -/
def EndInOrder (claimed : List Region) : Prop :=
  ∀ a ∈ claimed, ∀ b ∈ claimed, a.start ≤ b.start → a.stop ≤ b.stop

variable {bytes : ByteArray} {img : Image} {claimed found : List Region} {mark : List Char}
variable {blockSize total block bound : Nat} {r : Region}

/-! ## Lines that are marks -/

theorem filter_lines_eq_nil {ls : List String} (star : mark.head? = some '*')
    (plain : ∀ line ∈ ls, ¬ Starred line) :
    (ls.map String.toList).filter (mark.isPrefixOf ·) = [] := by
  refine List.filter_eq_nil_iff.2 (List.forall_mem_map.2 fun line mem marked => ?_)
  exact plain line mem (starred_of_mark (List.isPrefixOf_iff_prefix.1 marked) star)

/-- The lines that start with a mark are those of what was found. -/
theorem linesWith_report (opened : Image.ofBytes bytes = .ok img)
    (listed : regions img = .ok found) (star : mark.head? = some '*') :
    linesWith mark (report bytes).text = (findings img found).flatMap fun f =>
      ((f.lines img.blockSize.toNat).map String.toList).filter (mark.isPrefixOf ·) := by
  have last : ([[]] : List (List Char)).filter (mark.isPrefixOf ·) = [] := by
    cases mark with
    | nil => cases star
    | cons _ _ => rfl
  rw [linesWith, splitOn_text opened listed, reportLines, List.map_append, List.map_append,
    List.filter_append, List.filter_append, List.filter_append,
    filter_lines_eq_nil star fun _ mem => (plain_headerLines mem).unmarked,
    filter_lines_eq_nil star fun _ mem => (plain_usageLines mem).unmarked, last,
    List.nil_append, List.append_nil, List.append_nil, List.map_flatMap, List.filter_flatMap]

/-- Of a line and an empty one, only the first can start with a mark. -/
theorem filter_mark {line : String} (star : mark.head? = some '*') :
    ([line, ""].map String.toList).filter (mark.isPrefixOf ·)
      = if mark <+: line.toList then [line.toList] else [] := by
  have none : mark.isPrefixOf ([] : List Char) = false := by
    cases mark with
    | nil => cases star
    | cons _ _ => rfl
  simp [List.filter_cons, List.isPrefixOf_iff_prefix, none]

theorem starts_gapLine (gap : Nat × Nat) : gapMark <+: (gapLine gap).toList := by
  have line : gapLine gap
      = "*** Unassigned blocks " ++ (toString gap.1 ++ (".." ++ toString gap.2)) :=
    (String.append_assoc ..).trans (String.append_assoc ..)
  exact ⟨_, ((congrArg String.toList line).trans (String.toList_append ..)).symm⟩

theorem starts_overlapLine (block : Nat) : overlapMark <+: (overlapLine block).toList :=
  ⟨_, (String.toList_append ..).symm⟩

/-- Neither mark starts with the other one. -/
theorem not_overlapMark_of_gapMark {line : List Char} (gap : gapMark <+: line) :
    ¬ overlapMark <+: line := by
  intro overlap
  obtain within | within := List.prefix_or_prefix_of_prefix gap overlap
  · exact absurd within (by decide)
  · exact absurd within (by decide)

theorem filter_gapMark (f : Finding) :
    ((f.lines blockSize).map String.toList).filter (gapMark.isPrefixOf ·)
      = (f.gap?.map fun gap => (gapLine gap).toList).toList := by
  cases f with
  | gap start stop | remainder start stop =>
    exact (filter_mark rfl).trans (if_pos (starts_gapLine (start, stop)))
  | overlap block =>
    refine (filter_mark rfl).trans (if_neg fun gap => ?_)
    exact not_overlapMark_of_gapMark gap (starts_overlapLine block)
  | region r => exact filter_lines_eq_nil rfl fun _ mem => (plain_regionLines mem).unmarked

theorem filter_overlapMark (f : Finding) :
    ((f.lines blockSize).map String.toList).filter (overlapMark.isPrefixOf ·)
      = (f.overlap?.map fun block => (overlapLine block).toList).toList := by
  cases f with
  | gap start stop | remainder start stop =>
    exact (filter_mark rfl).trans
      (if_neg (not_overlapMark_of_gapMark (starts_gapLine (start, stop))))
  | overlap block => exact (filter_mark rfl).trans (if_pos (starts_overlapLine block))
  | region r => exact filter_lines_eq_nil rfl fun _ mem => (plain_regionLines mem).unmarked

/-- The lines that mark gaps are those of the gaps that were found. -/
theorem linesWith_gapMark (opened : Image.ofBytes bytes = .ok img)
    (listed : regions img = .ok found) : linesWith gapMark (report bytes).text
      = (gaps (findings img found)).map fun gap => (gapLine gap).toList := by
  rw [linesWith_report opened listed rfl, gaps, List.map_filterMap,
    List.filterMap_eq_flatMap_toList]
  exact congrArg (List.flatMap · _) (funext filter_gapMark)

/-- The lines that mark overlaps are those of the overlaps that were found. -/
theorem linesWith_overlapMark (opened : Image.ofBytes bytes = .ok img)
    (listed : regions img = .ok found) : linesWith overlapMark (report bytes).text
      = (overlaps (findings img found)).map fun block => (overlapLine block).toList := by
  rw [linesWith_report opened listed rfl, overlaps, List.map_filterMap,
    List.filterMap_eq_flatMap_toList]
  exact congrArg (List.flatMap · _) (funext filter_overlapMark)

/-! ## What is marked -/

theorem Region.LastBelow.of_perm (perm : found.Perm claimed)
    (last : Region.LastBelow found bound r) : Region.LastBelow claimed bound r :=
  ⟨perm.mem_iff.1 last.mem, last.below, fun x mem => last.last x (perm.mem_iff.2 mem)⟩

theorem Region.lastBelow_congr (perm : found.Perm claimed) :
    Region.LastBelow found bound r ↔ Region.LastBelow claimed bound r :=
  ⟨.of_perm perm, .of_perm perm.symm⟩

/-- The last region that starts at a block or before it has the block unless it has ended. -/
theorem Region.LastBelow.not_has_iff (last : Region.LastBelow claimed (block + 1) r) :
    ¬ r.Has block ↔ r.stop ≤ block := by
  have started := Nat.le_of_lt_succ last.below
  exact ⟨fun h => Nat.le_of_not_lt fun lt => h ⟨started, lt⟩,
    fun le h => absurd h.2 (Nat.not_lt_of_le le)⟩

/-- What a sweep finds is right as far as the last region says. -/
theorem exactToLast_sweep (ascending : Ascending found) (within : ∀ r ∈ found, r.Within img) :
    ExactToLast img.superblock.totalBlocks.toNat found (gaps (findings img found))
      (overlaps (findings img found)) where
  gap block := by
    have inside : ∀ r ∈ found, r.start.toNat < r.stop
        ∧ r.stop ≤ img.superblock.totalBlocks.toNat :=
      fun r mem => ⟨(within r mem).start_lt_stop, (within r mem).inside⟩
    rw [findings, mem_spanned_sweep ascending inside]
    rcases Nat.eq_zero_or_pos block with rfl | pos
    · -- The cursor starts behind the superblock.
      rw [endBelow_of_le fun r mem => (within r mem).behind]
      omega
    · rw [endBelow_le_iff ascending pos, and_comm, and_iff_right (show 1 ≤ block from pos)]
      exact and_congr_right fun _ => forall_congr' fun r =>
        forall_congr' fun last => last.not_has_iff.symm
  overlap block := by
    rw [findings, mem_overlaps_sweep ascending]
    refine exists_congr fun r => and_congr_right fun mem => and_congr_right fun begins => ?_
    have pos : 1 ≤ block := begins ▸ (within r mem).behind
    rw [← Nat.not_le, endBelow_le_iff ascending pos]
    simp only [not_forall, Nat.not_le, exists_prop]
    exact exists_congr fun p => and_congr_right fun last =>
      (and_iff_right (Nat.le_of_lt last.below)).symm

/-- When no region ends before an earlier one, the last region below a bound has every block that
any region has that starts there. -/
theorem Region.LastBelow.has (last : Region.LastBelow claimed bound r)
    (ordered : EndInOrder claimed) {p : Region} (mem : p ∈ claimed) (below : p.start.toNat < bound)
    (has : p.Has block) (late : bound ≤ block + 1) : r.Has block := by
  have after := ordered p mem r last.mem (UInt32.le_iff_toNat_le.2 (last.last p mem below))
  exact ⟨Nat.le_of_lt_succ (Nat.lt_of_lt_of_le last.below late), Nat.lt_of_lt_of_le has.2 after⟩

/-- What is right as far as the last region says is right, when no region ends before an earlier
one. -/
theorem ExactToLast.exact {gaps : List (Nat × Nat)} {overlaps : List Nat}
    (h : ExactToLast total found gaps overlaps) (ascending : Ascending found)
    (ordered : EndInOrder found) : Exact total found gaps overlaps where
  gap block := by
    refine (h.gap block).trans (and_congr_right fun _ => ⟨fun ended p mem has => ?_,
      fun free r last => free r last.mem⟩)
    have started := Nat.lt_succ_of_le has.1
    obtain ⟨r, last⟩ | above := exists_lastBelow (block + 1) ascending
    · exact ended r last (last.has ordered mem started has (Nat.le_refl _))
    · exact absurd started (Nat.not_lt_of_le (above p mem))
  overlap block := by
    refine (h.overlap block).trans (exists_congr fun r => and_congr_right fun _ =>
      and_congr_right fun begins => ?_)
    subst begins
    constructor
    · rintro ⟨p, last, has⟩
      exact ⟨p, last.mem, UInt32.lt_iff_toNat_lt.2 last.below, has⟩
    · rintro ⟨p, mem, before, has⟩
      have before := UInt32.lt_iff_toNat_lt.1 before
      obtain ⟨q, last⟩ | above := exists_lastBelow r.start.toNat ascending
      · exact ⟨q, last, last.has ordered mem before has (Nat.le_succ _)⟩
      · exact absurd before (Nat.not_lt_of_le (above p mem))

theorem ExactToLast.of_perm {gaps : List (Nat × Nat)} {overlaps : List Nat}
    (h : ExactToLast total found gaps overlaps) (perm : found.Perm claimed) :
    ExactToLast total claimed gaps overlaps where
  gap block := by
    simp only [← Region.lastBelow_congr perm]
    exact h.gap block
  overlap block := by
    simp only [← Region.lastBelow_congr perm, ← perm.mem_iff]
    exact h.overlap block

theorem Exact.of_perm {gaps : List (Nat × Nat)} {overlaps : List Nat}
    (h : Exact total found gaps overlaps) (perm : found.Perm claimed) :
    Exact total claimed gaps overlaps where
  gap block := by
    simp only [← perm.mem_iff]
    exact h.gap block
  overlap block := by
    simp only [← perm.mem_iff]
    exact h.overlap block

theorem EndInOrder.of_perm (ordered : EndInOrder claimed) (perm : found.Perm claimed) :
    EndInOrder found :=
  fun a mem b mem' => ordered a (perm.mem_iff.1 mem) b (perm.mem_iff.1 mem')

/-- The marks of a dump that succeeds name every block and every overlap at most once, and in
order. They are right as far as the last region says that starts at or before a block. Where no
region ends before one that starts before it, they are right: the marked gaps have exactly the
blocks behind the superblock that nobody claims, and the marked overlaps are exactly where a region
starts within an earlier one. -/
theorem marks_of_report (succeeds : (report bytes).failure = none) :
    ∃ img claimed gaps overlaps, Image.ofBytes bytes = .ok img ∧ Claimed img claimed
      ∧ linesWith gapMark (report bytes).text = gaps.map (fun gap => (gapLine gap).toList)
      ∧ linesWith overlapMark (report bytes).text
        = overlaps.map (fun block => (overlapLine block).toList)
      ∧ (spanned gaps).Pairwise (· < ·) ∧ overlaps.Pairwise (· < ·)
      ∧ ExactToLast img.superblock.totalBlocks.toNat claimed gaps overlaps
      ∧ (EndInOrder claimed → Exact img.superblock.totalBlocks.toNat claimed gaps overlaps) := by
  obtain ⟨img, claimed, found, h⟩ := success_of_report succeeds
  have within := h.found_within
  have last := exactToLast_sweep h.ascending within
  refine ⟨img, claimed, _, _, h.opened, h.all, linesWith_gapMark h.opened h.listed,
    linesWith_overlapMark h.opened h.listed, ?_, pairwise_overlaps_sweep h.ascending,
    last.of_perm h.perm, fun ordered => ?_⟩
  · exact pairwise_spanned_sweep h.ascending
      fun r mem => ⟨(within r mem).start_lt_stop, (within r mem).inside⟩
  · exact (last.exact h.ascending (ordered.of_perm h.perm)).of_perm h.perm

/-! ## A region within a longer one -/

/-- A file of four blocks, one of one block within it, and one that starts at its last block. -/
def nestedRecords : List Record :=
  [sharedRecord [0x61] 2048 2 4, sharedRecord [0x62] 512 3 1, sharedRecord [0x63] 1536 5 3]

def nestedRegions : List Region :=
  rootRegion (specimen nestedRecords 6) nestedRecords
    :: nestedRecords.map fun record => ⟨record.start, record.count,
      Path.join rootPath record.name, .data record⟩

theorem success_nested : Success (specimenBytes nestedRecords 6).toBuffer
    (specimen nestedRecords 6) nestedRegions nestedRegions := by
  have opened := ofBytes_specimen nestedRecords 6 (by decide) (by decide)
  have sound := (Image.opened_of_ofBytes opened).toSound
  have root := root_specimen nestedRecords 6 (by decide) (by decide)
  have readable (record : Record) (at' : (specimen nestedRecords 6).FileAt record) :
      (specimen nestedRecords 6).fileData record = .ok _ :=
    (Image.decided_fileData sound record).eq_ok at'
  have listed : Listed (specimen nestedRecords 6) (nestedRecords.map (rootPath, ·)) _ :=
    .file rfl (by decide) (by decide) (readable _ ⟨by decide, rfl, by decide, fun _ => by decide⟩)
      (.file rfl (by decide) (by decide)
        (readable _ ⟨by decide, rfl, by decide, fun _ => by decide⟩)
        (.file rfl (by decide) (by decide)
          (readable _ ⟨by decide, rfl, by decide, fun _ => by decide⟩) .nil))
  have all : Claimed (specimen nestedRecords 6) nestedRegions := ⟨_, _, root, listed, rfl⟩
  exact success_of_claimed opened all (by decide)

theorem marks_of_report_nested :
    (report (specimenBytes nestedRecords 6).toBuffer).failure = none
      ∧ ∃ img claimed gaps overlaps,
        Image.ofBytes (specimenBytes nestedRecords 6).toBuffer = .ok img ∧ Claimed img claimed
          ∧ linesWith gapMark (report (specimenBytes nestedRecords 6).toBuffer).text
            = gaps.map (fun gap => (gapLine gap).toList)
          ∧ linesWith overlapMark (report (specimenBytes nestedRecords 6).toBuffer).text
            = overlaps.map (fun block => (overlapLine block).toList)
          ∧ ExactToLast img.superblock.totalBlocks.toNat claimed gaps overlaps := by
  obtain ⟨img, claimed, gaps, overlaps, opened, all, gapLines, overlapLines, _, _, last, _⟩ :=
    marks_of_report success_nested.ends
  exact ⟨success_nested.ends, img, claimed, gaps, overlaps, opened, all, gapLines, overlapLines,
    last⟩

/-- The only gap that is marked is block four, which the first file has, and the third file is not
marked although it starts within the first. -/
theorem report_nested_misses : ∃ img claimed,
    Image.ofBytes (specimenBytes nestedRecords 6).toBuffer = .ok img
      ∧ (report (specimenBytes nestedRecords 6).toBuffer).failure = none ∧ Claimed img claimed
      ∧ linesWith gapMark (report (specimenBytes nestedRecords 6).toBuffer).text
        = [(gapLine (4, 5)).toList]
      ∧ linesWith overlapMark (report (specimenBytes nestedRecords 6).toBuffer).text
        = [(overlapLine 3).toList]
      ∧ ¬ Exact img.superblock.totalBlocks.toNat claimed [(4, 5)] [3] := by
  have h := success_nested
  have gap : gaps (findings (specimen nestedRecords 6) nestedRegions) = [(4, 5)] := by decide
  have overlap : overlaps (findings (specimen nestedRecords 6) nestedRegions) = [3] := by decide
  refine ⟨_, _, h.opened, success_nested.ends, h.all, ?_, ?_, fun exact => ?_⟩
  · rw [linesWith_gapMark h.opened h.listed, gap]
    rfl
  · rw [linesWith_overlapMark h.opened h.listed, overlap]
    rfl
  · have free := ((exact.gap 4).1 (by decide)).2
    refine free ⟨2, 4, Path.join rootPath [0x61], .data (sharedRecord [0x61] 2048 2 4)⟩ ?_ ?_
    · exact List.mem_cons_of_mem _ List.mem_cons_self
    · exact ⟨by decide, by decide⟩

end FlatImage.Dump
