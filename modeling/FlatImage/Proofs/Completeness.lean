import FlatImage.Proofs.Compilation
import Mathlib.Data.List.Nodup
import Mathlib.Data.List.Perm.Subperm
import Mathlib.Data.Sum.Basic

/-!
# What a finished assembly says about its parts

Tables and files may be written in any order, more than once, and past calls that fail. The progress
of a writer only counts those that were written and knows the last block reached, and an assembly
that is finished compares no more than that with its layout. So a finished assembly is complete when
no table or file was written twice: a second writing of one stands in for the first of another.
-/

namespace FlatImage

/-! ## Parts -/

/-- The progress behind one more extent, which is that of so many tables and files. -/
def Progress.credit (p : Progress) (tables files : Nat) (e : Extent) : Progress :=
  p.more tables files (max p.endBlock (e.start + e.count))

theorem Progress.credit_right_comm (p : Progress) (tables files : Nat) (e : Extent)
    (tables' files' : Nat) (e' : Extent) :
    (p.credit tables files e).credit tables' files' e'
      = (p.credit tables' files' e').credit tables files e := by
  simp only [credit, more, Nat.add_right_comm _ tables, Nat.add_right_comm _ files,
    Nat.max_right_comm _ (e.start + e.count)]

/-- Extents that follow each other without a gap from where the progress ends are reached one after
the other. -/
theorem Progress.foldl_credit {α : Type} {extent : α → Extent} {tables files first last : Nat}
    {xs : List α} (tiles : Extent.Tiles first (xs.map extent) last) {p : Progress}
    (reached : p.endBlock = first) :
    xs.foldl (fun p x => p.credit tables files (extent x)) p
      = p.more (xs.length * tables) (xs.length * files) last := by
  induction xs generalizing first p with
  | nil =>
    obtain rfl : first = last := tiles
    simp only [List.foldl_nil, List.length_nil, more, Nat.zero_mul, Nat.add_zero, ← reached]
  | cons x rest ih =>
    obtain ⟨start, tiles⟩ := tiles
    have onward : (p.credit tables files (extent x)).endBlock = first + (extent x).count := by
      simp only [credit, more, reached, start]
      exact Nat.max_eq_right (Nat.le_add_right ..)
    rw [List.foldl_cons, ih tiles onward]
    simp only [credit, more, List.length_cons, Nat.add_mul, Nat.one_mul]
    congr 1 <;> omega

namespace Layout

/-- A table or a file of a layout. -/
abbrev Part (l : Layout) := Fin l.tables.length ⊕ Fin l.files.length

/-- All tables and files in the order of their blocks. -/
def parts (l : Layout) : List l.Part :=
  (List.finRange l.tables.length).map .inl ++ (List.finRange l.files.length).map .inr

/-- The progress behind one more part. -/
def credit (l : Layout) (p : Progress) : l.Part → Progress
  | .inl i => p.credit 1 0 (l.tables.get i).extent
  | .inr i => p.credit 0 1 (l.files.get i).extent

def writePart (l : Layout) (sources : Sources) : l.Part → Writing Unit
  | .inl i => Writer.writeTable (l.tables.get i)
  | .inr i => Writer.writeFile sources (l.files.get i)

/-- Writes tables and files one after the other, each with what the host has then, and goes on where
one fails. The parts that were written to their end are listed. -/
def writeParts (l : Layout) : List (l.Part × Sources) → Writer → List l.Part × Writer
  | [], w => ([], w)
  | (part, sources) :: rest, w =>
    match (l.writePart sources part).run.run w with
    | (.ok (), w') =>
      let (written, w'') := l.writeParts rest w'
      (part :: written, w'')
    | (.error _, w') => l.writeParts rest w'

variable {l : Layout}

theorem mem_parts (part : l.Part) : part ∈ l.parts := by
  cases part <;> simp [parts]

theorem nodup_parts : l.parts.Nodup := by
  refine List.nodup_append.2 ⟨?_, ?_, ?_⟩
  · exact List.Nodup.map Sum.inl_injective (List.nodup_finRange _)
  · exact List.Nodup.map Sum.inr_injective (List.nodup_finRange _)
  · simp

theorem length_parts : l.parts.length = l.tables.length + l.files.length := by
  simp [parts]

/-- Of lists that are as long as there are parts, those with all parts are those with none twice. -/
theorem mem_iff_nodup_of_length {written : List l.Part}
    (length : written.length = l.tables.length + l.files.length) :
    (∀ part, part ∈ written) ↔ written.Nodup := by
  rw [← length_parts] at length
  constructor
  · intro all
    have some : l.parts.Subperm written := nodup_parts.subperm fun part _ => all part
    exact (some.perm_of_length_le (Nat.le_of_eq length)).nodup_iff.1 nodup_parts
  · intro nodup part
    have some : written.Subperm l.parts := nodup.subperm fun part _ => mem_parts part
    exact (some.perm_of_length_le (Nat.le_of_eq length.symm)).mem_iff.2 (mem_parts part)

/-- Every part that is credited counts once. -/
theorem counts_foldl_credit (written : List l.Part) (p : Progress) :
    (written.foldl l.credit p).tables + (written.foldl l.credit p).files
      = p.tables + p.files + written.length := by
  induction written generalizing p with
  | nil => rfl
  | cons part rest ih =>
    rw [List.foldl_cons, ih, List.length_cons]
    cases part <;> simp only [credit, Progress.credit, Progress.more] <;> omega

theorem foldl_credit_perm {written other : List l.Part} (perm : written.Perm other)
    (p : Progress) : written.foldl l.credit p = other.foldl l.credit p := by
  refine perm.foldl_eq' ?_ p
  intro one _ two _ p
  cases one <;> cases two <;> exact p.credit_right_comm ..

/-- All parts of a layout that tiles its image are the whole progress. -/
theorem Tiling.foldl_credit_parts {o : Options} {root : Directory} (h : l.Tiling o root) :
    l.parts.foldl l.credit .start = ⟨l.tables.length, l.files.length, l.totalBlocks.toNat⟩ := by
  have tables : ((List.finRange l.tables.length).map Sum.inl).foldl l.credit .start
      = l.tables.foldl (fun p t => p.credit 1 0 t.extent) .start := by
    conv_rhs => rw [← List.map_get_finRange l.tables]
    rw [List.foldl_map, List.foldl_map]
    rfl
  have files (p : Progress) : ((List.finRange l.files.length).map Sum.inr).foldl l.credit p
      = l.files.foldl (fun p f => p.credit 0 1 f.extent) p := by
    conv_rhs => rw [← List.map_get_finRange l.files]
    rw [List.foldl_map, List.foldl_map]
    rfl
  rw [parts, List.foldl_append, tables, Progress.foldl_credit h.tablesTile rfl, files,
    Progress.foldl_credit h.filesTile rfl]
  simp only [Progress.more, Progress.start, Nat.mul_one, Nat.mul_zero, Nat.zero_add, Nat.add_zero]

theorem shortfall?_eq_none_iff {p : Progress} :
    l.shortfall? p = none ↔ p = ⟨l.tables.length, l.files.length, l.totalBlocks.toNat⟩ := by
  obtain ⟨tables, files, endBlock⟩ := p
  simp only [shortfall?, Progress.mk.injEq]
  by_cases counts : tables ≠ l.tables.length ∨ files ≠ l.files.length
  · rw [if_pos counts]
    constructor
    · intro none
      cases none
    · rintro ⟨rfl, rfl, _⟩
      simp at counts
  · rw [if_neg counts]
    simp only [not_or, Decidable.not_not] at counts
    simp [counts]

/-- Where nothing is missing, all parts were credited or one was credited twice. -/
theorem mem_iff_nodup_of_complete {written : List l.Part}
    (complete : l.shortfall? (written.foldl l.credit .start) = none) :
    (∀ part, part ∈ written) ↔ written.Nodup := by
  have counts := counts_foldl_credit written .start
  rw [shortfall?_eq_none_iff.1 complete] at counts
  simp only [Progress.start, Nat.zero_add] at counts
  exact mem_iff_nodup_of_length counts.symm

/-- Where all parts were credited and none twice, nothing is missing. -/
theorem Tiling.complete_of_nodup {o : Options} {root : Directory} (h : l.Tiling o root)
    {written : List l.Part} (nodup : written.Nodup) (all : ∀ part, part ∈ written) :
    l.shortfall? (written.foldl l.credit .start) = none := by
  have perm : written.Perm l.parts :=
    (List.perm_ext_iff_of_nodup nodup nodup_parts).2 fun part => by
      simp only [all part, mem_parts part]
  rw [foldl_credit_perm perm, h.foldl_credit_parts]
  exact shortfall?_eq_none_iff.2 rfl

/-! ## Writing parts -/

/-- A destination while tables and files are written: it has its final length, and its block zero is
still blank. -/
structure Standing (l : Layout) (refuses : Array Output.Call → Output.Call → Option IoError)
    (p : Progress) (w : Writer) : Prop where
  blockSize : w.blockSize = l.blockSize.toNat
  refuses : w.output.refuses = refuses
  progress : w.progress = p
  length : w.content.length = l.imageLength
  blank : w.Blank l.blockSize.toNat

variable {refuses : Array Output.Call → Output.Call → Option IoError} {p p' : Progress}
variable {w w' : Writer}

/-- What is put into blocks of the image behind block zero does not change what it stands on. -/
theorem Standing.of_wrote (h : Standing l refuses p w) {e : Extent} {piece : Bytes}
    (wrote : Writer.Wrote (e.start * w.blockSize) piece p' w w') (behind : 1 ≤ e.start)
    (inside : e.start + e.count ≤ l.totalBlocks.toNat)
    (small : piece.length ≤ e.count * w.blockSize) : Standing l refuses p' w' where
  blockSize := wrote.blockSize.trans h.blockSize
  refuses := wrote.refuses.trans h.refuses
  progress := wrote.progress
  length := by
    have fits : e.start * w.blockSize + piece.length ≤ w.content.length := by
      have room := Nat.mul_le_mul_right w.blockSize inside
      rw [Nat.add_mul] at room
      rw [h.length, imageLength, ← h.blockSize]
      omega
    rw [wrote.content_eq (Nat.le_trans (Nat.le_add_right ..) fits), Bytes.length_put,
      Nat.max_eq_left fits, h.length]
  blank := by
    refine h.blank.of_wrote wrote ?_
    rw [h.blockSize]
    exact Nat.le_mul_of_pos_left _ behind

end Layout

namespace Directory.Placeable

variable {o : Options} {root : Directory} (h : root.Placeable o)
variable {refuses : Array Output.Call → Output.Call → Option IoError} {p : Progress} {w : Writer}

include h

/-- Writing a part credits it when it succeeds, and credits nothing when it fails. -/
theorem ends_writePart (sources : Sources) (part : (root.layout o).Part)
    (standing : (root.layout o).Standing refuses p w) :
    Writer.Ends ((root.layout o).writePart sources part) w
      (fun _ => (root.layout o).Standing refuses ((root.layout o).credit p part))
      (fun e w' => (root.layout o).Standing refuses p w' ∧ ∃ r, e = .error r
        ∧ (w.Refused r ∨ (root.layout o).Changed sources r)) := by
  have pos : 0 < w.blockSize := by
    rw [standing.blockSize]
    exact Options.blockBytes_pos_of_validate h.valid
  have small : w.blockSize ≤ 4096 := by
    rw [standing.blockSize]
    exact Options.le_largest_of_validate h.valid
  obtain rfl := standing.progress
  cases part with
  | inl i =>
    have mem := List.get_mem (root.layout o).tables i
    obtain ⟨behind, before⟩ := h.tiling.tablesTile.within (List.mem_map_of_mem mem)
    have inside := Nat.le_trans before (UInt32.le_iff_toNat_le.1 h.dataStart_le)
    have own := Writer.ends_writeTable ((root.layout o).tables.get i) w pos small
      (by rw [standing.blockSize]; exact h.tables_fit _ mem)
    refine own.mono ?_ ?_
    · intro _ w' wrote
      refine standing.of_wrote wrote behind inside (Nat.le_of_eq ?_)
      rw [standing.blockSize]
      exact h.length_table _ mem
    · rintro e w' ⟨⟨r, rfl, refused⟩, piece, fits, wrote⟩
      exact ⟨standing.of_wrote wrote behind inside fits, r, rfl, .inl ⟨_, refused⟩⟩
  | inr i =>
    have mem := List.get_mem (root.layout o).files i
    obtain ⟨behind, inside⟩ := h.tiling.filesTile.within (List.mem_map_of_mem mem)
    have behind : 1 ≤ ((root.layout o).files.get i).extent.start := by
      refine Nat.le_trans ?_ behind
      rw [h.tiling.dataStart]
      exact Nat.le_add_right ..
    have own := Writer.ends_writeFile sources ((root.layout o).files.get i) w pos small
      (by rw [standing.blockSize]; exact h.files_count _ mem)
    refine own.mono ?_ ?_
    · rintro _ w' ⟨holds, wrote⟩
      refine standing.of_wrote wrote behind inside (Nat.le_of_eq ?_)
      rw [standing.blockSize]
      exact h.length_file _ mem holds
    · rintro e w' ⟨⟨r, rfl, why⟩, piece, fits, wrote⟩
      refine ⟨standing.of_wrote wrote behind inside fits, r, rfl, ?_⟩
      obtain refused | ⟨lacks, unreadable⟩ := why
      · exact .inl ⟨_, refused⟩
      · exact .inr ⟨_, mem, lacks, unreadable⟩

/-- After any calls, exactly the parts that were written are credited. -/
theorem standing_writeParts (calls : List ((root.layout o).Part × Sources))
    (standing : (root.layout o).Standing refuses p w) :
    (root.layout o).Standing refuses
      (((root.layout o).writeParts calls w).1.foldl (root.layout o).credit p)
      ((root.layout o).writeParts calls w).2 := by
  induction calls generalizing p w with
  | nil => exact standing
  | cons call rest ih =>
    obtain ⟨part, sources⟩ := call
    have step := h.ends_writePart sources part standing
    rcases run : ((root.layout o).writePart sources part).run.run w with ⟨result, w'⟩
    cases result with
    | ok _ =>
      simp only [Layout.writeParts, run]
      exact ih (step.of_ok run)
    | error e =>
      simp only [Layout.writeParts, run]
      exact ih (step.of_error run).1

/-- Where nothing is refused and all contents are the planned ones, every call succeeds. -/
theorem writeParts_accepting (calls : List ((root.layout o).Part × Sources))
    (readable : ∀ call ∈ calls, (root.layout o).Readable call.2)
    (standing : (root.layout o).Standing (fun _ _ => none) p w) :
    ((root.layout o).writeParts calls w).1 = calls.map Prod.fst := by
  induction calls generalizing p w with
  | nil => rfl
  | cons call rest ih =>
    obtain ⟨part, sources⟩ := call
    have step := h.ends_writePart sources part standing
    rcases run : ((root.layout o).writePart sources part).run.run w with ⟨result, w'⟩
    cases result with
    | ok _ =>
      have others := ih (fun call mem => readable call (List.mem_cons_of_mem _ mem))
        (step.of_ok run)
      simp only [Layout.writeParts, run, List.map_cons, others]
    | error e =>
      obtain ⟨_, r, _, refused | ⟨f, mem, lacks, _⟩⟩ := step.of_error run
      · exact absurd refused (Writer.not_refused standing.refuses r)
      · exact absurd (readable _ List.mem_cons_self f mem) lacks

theorem standing_reserved {before : Output}
    (run : (root.layout o).reserve.run.run (.new before o.blockBytes) = (.ok (), w)) :
    (root.layout o).Standing before.refuses .start w := by
  have reserved := (Writer.ends_reserve (root.layout o) (.new before o.blockBytes)
    (Options.le_largest_of_validate h.valid) h.blockBytes_le_imageLength).of_ok run
  exact ⟨reserved.blockSize, reserved.refuses, reserved.progress, reserved.length,
    reserved.blank⟩

theorem reserve_accepting (content : Blob) : ∃ w,
    (root.layout o).reserve.run.run (.new (.accepting content) o.blockBytes) = (.ok (), w) := by
  have reserved := Writer.ends_reserve (root.layout o) (.new (.accepting content) o.blockBytes)
    (Options.le_largest_of_validate h.valid) h.blockBytes_le_imageLength
  obtain ⟨_, w, run, _⟩ := reserved.exists_ok fun _ _ ⟨r, _, refused, _⟩ =>
    Writer.not_refused rfl r refused
  exact ⟨w, run⟩

/-- Where nothing is refused and all contents are the planned ones, all calls are credited. -/
theorem exists_writeParts (calls : List ((root.layout o).Part × Sources))
    (readable : ∀ call ∈ calls, (root.layout o).Readable call.2) : ∃ w w',
      (root.layout o).reserve.run.run (.new (.accepting (.hole 0)) o.blockBytes) = (.ok (), w)
        ∧ (root.layout o).writeParts calls w = (calls.map Prod.fst, w')
        ∧ (root.layout o).Standing (fun _ _ => none)
          ((calls.map Prod.fst).foldl (root.layout o).credit .start) w' := by
  obtain ⟨w, reserved⟩ := h.reserve_accepting (.hole 0)
  have start := h.standing_reserved reserved
  have written := h.writeParts_accepting calls readable start
  have standing := h.standing_writeParts calls start
  rw [written] at standing
  exact ⟨w, _, reserved, Prod.ext written rfl, standing⟩

/-! ## Finishing -/

/-- Finishing where nothing is missing writes the superblock, and fails only where that is
refused. -/
theorem ends_finish (standing : (root.layout o).Standing refuses p w)
    (complete : (root.layout o).shortfall? p = none) :
    Writer.Ends ((root.layout o).finish p) w (fun s _ => s = root.summary o)
      (fun e _ => ∃ r, e = .error r ∧ w.Refused r) := by
  have room := Nat.le_trans (Options.recordSize_le_of_validate h.valid) h.blockBytes_le_imageLength
  refine (Writer.ends_finish complete h.superblock_eq h.summary_eq w standing.length room).mono
    ?_ ?_
  · rintro _ _ ⟨same, _⟩
    exact same
  · rintro _ _ ⟨r, same, refused, _⟩
    exact ⟨r, same, refused⟩

/-- Where nothing is refused, what is not missing anything is finished. -/
theorem exists_finish (standing : (root.layout o).Standing (fun _ _ => none) p w)
    (complete : (root.layout o).shortfall? p = none) :
    ∃ s w', ((root.layout o).finish w.progress).run.run w = (.ok s, w') := by
  rw [standing.progress]
  obtain ⟨s, w', run, _⟩ := (h.ends_finish standing complete).exists_ok fun _ _ ⟨r, _, refused⟩ =>
    Writer.not_refused standing.refuses r refused
  exact ⟨s, w', run⟩

/-- Finishing says that something is missing exactly where it is, and then does nothing else. -/
theorem finish_eq_incomplete_iff (standing : (root.layout o).Standing refuses p w)
    (missing : Shortfall) (w' : Writer) :
    ((root.layout o).finish p).run.run w = (.error (.error (.assemblyIncomplete missing)), w')
      ↔ (root.layout o).shortfall? p = some missing ∧ w' = w := by
  cases found : (root.layout o).shortfall? p with
  | none =>
    constructor
    · intro run
      obtain ⟨r, same, _, _, _, _, _, rfl⟩ := (h.ends_finish standing found).of_error run
      cases same
    · exact nofun
  | some other =>
    have run : ((root.layout o).finish p).run.run w
        = (.error (.error (.assemblyIncomplete other)), w) := by
      simp only [Layout.finish, found]
      rfl
    rw [run]
    constructor
    · intro same
      cases same
      exact ⟨rfl, rfl⟩
    · rintro ⟨same, rfl⟩
      cases same
      rfl

end Directory.Placeable

namespace Layout

variable {root : Directory} {o : Options} {l : Layout} {before : Output} {w w' : Writer}

/-- Whatever calls were made and whichever of them failed, an assembly that is finished is complete
unless a part was written twice. Where none was, finishing says that something is missing exactly
when something is. It leaves the destination alone when it says so. -/
theorem complete_of_finish (planned : plan root o = .ok l)
    (reserved : l.reserve.run.run (.new before l.blockSize.toNat) = (.ok (), w))
    (calls : List (l.Part × Sources)) {written : List l.Part}
    (run : l.writeParts calls w = (written, w')) :
    (∀ s w'', (l.finish w'.progress).run.run w' = (.ok s, w'') →
        ((∀ part, part ∈ written) ↔ written.Nodup))
      ∧ (written.Nodup → ((∃ missing, (l.finish w'.progress).run.run w'
          = (.error (.error (.assemblyIncomplete missing)), w')) ↔ ∃ part, part ∉ written))
      ∧ ∀ missing w'', (l.finish w'.progress).run.run w'
          = (.error (.error (.assemblyIncomplete missing)), w'') → w'' = w' := by
  obtain ⟨placeable, rfl⟩ := Directory.plan_eq_ok_iff.1 planned
  have standing := placeable.standing_writeParts calls (placeable.standing_reserved reserved)
  rw [run] at standing
  have incomplete := placeable.finish_eq_incomplete_iff standing
  rw [standing.progress]
  refine ⟨?_, ?_, ?_⟩
  · intro s w'' finished
    cases found : (root.layout o).shortfall? (written.foldl (root.layout o).credit .start) with
    | none => exact mem_iff_nodup_of_complete found
    | some missing =>
      cases finished.symm.trans ((incomplete _ _).2 ⟨found, rfl⟩)
  · intro nodup
    constructor
    · rintro ⟨missing, said⟩
      by_contra none
      have all : ∀ part, part ∈ written := fun part => by_contra fun lacks => none ⟨part, lacks⟩
      cases (placeable.tiling.complete_of_nodup nodup all).symm.trans ((incomplete _ _).1 said).1
    · rintro ⟨part, lacks⟩
      cases found : (root.layout o).shortfall? (written.foldl (root.layout o).credit .start) with
      | none => exact absurd ((mem_iff_nodup_of_complete found).2 nodup part) lacks
      | some missing => exact ⟨missing, (incomplete _ _).2 ⟨found, rfl⟩⟩
  · intro missing w'' said
    exact ((incomplete _ _).1 said).2

/-- Calls that write parts of the small tree, which has its contents in itself. -/
def sampleCalls (parts : List (Directory.sample.layout {}).Part) :
    List ((Directory.sample.layout {}).Part × Sources) :=
  parts.map (·, fun _ => .error (.described "missing"))

/-- All parts of the small tree are written, the last one first, and the assembly is finished. When
its tables alone are written, finishing says that something is missing. -/
theorem complete_of_finish_sample :
    let l := Directory.sample.layout {}
    let tables : List l.Part := [.inl ⟨0, by decide⟩, .inl ⟨1, by decide⟩]
    (∃ w w' s w'', l.reserve.run.run (.new (.accepting (.hole 0)) 512) = (.ok (), w)
        ∧ l.writeParts (sampleCalls l.parts.reverse) w = (l.parts.reverse, w')
        ∧ (l.finish w'.progress).run.run w' = (.ok s, w'')
        ∧ ∀ part, part ∈ l.parts.reverse)
      ∧ ∃ w w' missing, l.reserve.run.run (.new (.accepting (.hole 0)) 512) = (.ok (), w)
        ∧ l.writeParts (sampleCalls tables) w = (tables, w')
        ∧ (l.finish w'.progress).run.run w'
          = (.error (.error (.assemblyIncomplete missing)), w') := by
  intro l tables
  have placeable := Directory.sample_placeable
  have planned : plan .sample {} = .ok l := Directory.plan_eq_ok_iff.2 ⟨placeable, rfl⟩
  have written (parts : List l.Part) : (sampleCalls parts).map Prod.fst = parts := by
    rw [sampleCalls, List.map_map]
    exact List.map_id parts
  have readable (parts : List l.Part) : ∀ call ∈ sampleCalls parts, l.Readable call.2 := by
    intro call mem
    obtain ⟨part, _, rfl⟩ := List.mem_map.1 mem
    exact Directory.sample_readable none _
  refine ⟨?_, ?_⟩
  · obtain ⟨w, w', reserved, run, standing⟩ :=
      placeable.exists_writeParts (sampleCalls l.parts.reverse) (readable _)
    rw [written] at run standing
    obtain ⟨s, w'', finished⟩ := placeable.exists_finish standing (by decide)
    refine ⟨w, w', s, w'', reserved, run, finished, ?_⟩
    exact ((complete_of_finish planned reserved _ run).1 s w'' finished).2
      (List.nodup_reverse.2 nodup_parts)
  · obtain ⟨w, w', reserved, run, _⟩ :=
      placeable.exists_writeParts (sampleCalls tables) (readable _)
    rw [written] at run
    obtain ⟨missing, said⟩ := ((complete_of_finish planned reserved _ run).2.1 (by decide)).2
      ⟨.inr ⟨0, by decide⟩, by simp [tables]⟩
    exact ⟨w, w', missing, reserved, run, said⟩

end Layout

namespace Directory

/-- A tree with one empty directory below its root. -/
def nested : Directory := .mk 0 (.cons [0x61] (.directory .empty) .nil)

def nestedPart : (nested.layout {}).Part := .inl ⟨1, by decide⟩

/-- Two calls that both write this table. There are no files, so the sources do not matter. -/
def nestedCalls : List ((nested.layout {}).Part × Sources) :=
  List.replicate 2 (nestedPart, fun _ => .error (.described "missing"))

/-- The table of the directory is written twice and that of the root never, and yet the assembly is
finished. -/
theorem finish_nested_repeated : ∃ w w' s w'',
    (nested.layout {}).reserve.run.run (.new (.accepting (.hole 0)) 512) = (.ok (), w)
      ∧ (nested.layout {}).writeParts nestedCalls w = ([nestedPart, nestedPart], w')
      ∧ ((nested.layout {}).finish w'.progress).run.run w' = (.ok s, w'')
      ∧ .inl ⟨0, by decide⟩ ∉ [nestedPart, nestedPart] := by
  have placeable : nested.Placeable {} := ⟨rfl, by decide, by decide⟩
  obtain ⟨w, w', reserved, run, standing⟩ :=
    placeable.exists_writeParts nestedCalls fun _ _ => nofun
  obtain ⟨s, w'', finished⟩ := placeable.exists_finish standing (by decide)
  exact ⟨w, w', s, w'', reserved, run, finished, by simp [nestedPart]⟩

end Directory

end FlatImage
