import FlatImage.Proofs.Layout.Planning
import FlatImage.Proofs.Opening
import FlatImage.Proofs.Writing.Assembly
import FlatImage.Tree.ToImage

/-!
# Compiling a tree

A compilation that succeeds leaves the encoding of the tree in its destination, whatever was there
before. One that fails leaves one of three things: what was there before, a blank block zero, or
the whole encoding. The middle one is where a run can be stopped at any of its calls, and nothing
that starts with a blank block is taken for an image.
-/

namespace FlatImage

/-- The content of every planned file can be read and has its planned size. -/
def Layout.Readable (sources : Sources) (l : Layout) : Prop :=
  ∀ f ∈ l.files, f.content.Holds sources f.size.toNat

/-- A failure to read a planned file whose content is not the planned one. -/
def Layout.Changed (sources : Sources) (l : Layout) (e : RunError) : Prop :=
  ∃ f ∈ l.files, ¬ f.content.Holds sources f.size.toNat ∧ e.Unreadable f.path

namespace Directory

variable {o : Options} {root : Directory} {sources : Sources}

/-- What a compilation that fails leaves in its destination. -/
inductive Remains (o : Options) (sources : Sources) (root : Directory) (before after : Output) :
    Prop where
  /-- The first call was refused. -/
  | untouched (same : after =
      { before with calls := before.calls.push (.write 0 o.blockBytes) })
  | blank (zeros : after.content.toList.take o.blockBytes = List.replicate o.blockBytes 0)
  /-- Only the last change of length or the flush was refused. -/
  | complete (readable : (root.layout o).Readable sources)
      (content : after.content.toList = root.encode o sources)
      (last : after.calls.back? = some (.setLength (root.layout o).imageLength)
        ∨ after.calls.back? = some .flush)

/-- The totals of a tree's image. -/
def summary (o : Options) (root : Directory) : Summary where
  blockSize := o.blockSize
  totalBlocks := UInt32.ofNat (root.totalBlocks o)
  metaBlocks := UInt32.ofNat (root.tableBlocks o.blockBytes)
  dataBlocks := UInt32.ofNat (root.dataBlocks o.blockBytes)
  entryCount := UInt32.ofNat root.count

namespace Placeable

/-! ## The layout of a placeable tree -/

theorem superblock_eq (h : root.Placeable o) :
    (root.layout o).superblock = .ok (root.superblock o) := by
  obtain ⟨shift, some⟩ := Option.isSome_iff_exists.1 (Options.validate_eq_ok_iff.1 h.valid).1
  have shifted : Geometry.shiftOf? (root.layout o).blockSize = .some shift := some
  simp only [Layout.superblock, shifted, superblock, some]
  rfl

theorem dataStart_le (h : root.Placeable o) :
    (root.layout o).dataStart ≤ (root.layout o).totalBlocks := by
  apply UInt32.le_iff_toNat_le.2
  rw [h.tiling.totalBlocks]
  exact Nat.le_add_right ..

theorem summary_eq (h : root.Placeable o) :
    (root.layout o).summary = .ok (root.summary o) := by
  have split := h.tiling.totalBlocks
  have data : (root.layout o).totalBlocks - (root.layout o).dataStart
      = UInt32.ofNat (root.dataBlocks o.blockBytes) := by
    have few : root.dataBlocks o.blockBytes < UInt32.size :=
      Nat.lt_of_le_of_lt (Nat.le_add_left ..) h.totalBlocks_lt
    apply UInt32.toNat_inj.1
    rw [UInt32.toNat_sub_of_le _ _ h.dataStart_le, split, Nat.add_sub_cancel_left,
      UInt32.toNat_ofNat_of_lt' few]
  simp only [Layout.summary, decide_eq_true h.dataStart_le, data]
  rfl

theorem imageLength_eq (h : root.Placeable o) :
    (root.layout o).imageLength = root.totalBlocks o * o.blockBytes := by
  have whole : (root.layout o).totalBlocks.toNat = root.totalBlocks o :=
    UInt32.toNat_ofNat_of_lt' h.totalBlocks_lt
  rw [Layout.imageLength, whole]
  rfl

theorem blockBytes_le_imageLength (h : root.Placeable o) :
    o.blockBytes ≤ (root.layout o).imageLength := by
  rw [h.imageLength_eq]
  exact Nat.le_mul_of_pos_left _ (Nat.lt_of_lt_of_le Nat.one_pos
    (Nat.le_trans (Nat.le_add_right ..) (Nat.le_add_right ..)))

theorem tables_fit (h : root.Placeable o) : ∀ t ∈ (root.layout o).tables,
    t.records.length * Geometry.recordSize ≤ t.count.toNat * o.blockBytes := by
  have pos := Options.blockBytes_pos_of_validate h.valid
  refine ((List.forall₂_and_left _ _).1 (h.tiling.tables.imp fun t place table => ⟨?_, table⟩)).1
  have entries : t.records.length = place.2.size := by
    rw [table.records.length_eq]
    exact Entries.length_toList _
  rw [entries, table.count]
  exact Geometry.le_tableBlocks_mul pos

theorem files_count (h : root.Placeable o) : ∀ f ∈ (root.layout o).files,
    f.count.toNat = Geometry.blocksFor f.size.toNat o.blockBytes := by
  refine ((List.forall₂_and_left _ _).1 (h.tiling.files.imp fun f place file => ⟨?_, file⟩)).1
  rw [file.size]
  exact file.count

theorem length_table (h : root.Placeable o) (t : PlannedTable)
    (mem : t ∈ (root.layout o).tables) :
    (t.image o.blockBytes).length = t.extent.count * o.blockBytes := by
  apply Bytes.length_padTo_of_le
  rw [Record.length_encodeMany]
  exact h.tables_fit t mem

theorem length_file (h : root.Placeable o) (f : PlannedFile) (mem : f ∈ (root.layout o).files)
    (holds : f.content.Holds sources f.size.toNat) :
    (f.image o.blockBytes sources).length = f.extent.count * o.blockBytes := by
  apply Bytes.length_padTo_of_le
  rw [holds.length_bytes, h.files_count f mem]
  exact Geometry.le_blocksFor_mul (Options.blockBytes_pos_of_validate h.valid)

theorem flatMap_tables (h : root.Placeable o) :
    (root.layout o).tables.flatMap (·.image o.blockBytes) = root.tableBytes o 1 (root.spot o) :=
  root.flatMap_tables Layout.rootPath 1 (Nat.lt_of_le_of_lt (Nat.le_add_left ..) h.dataStart_lt)

theorem flatMap_files (h : root.Placeable o) (sources : Sources) :
    (root.layout o).files.flatMap (·.image o.blockBytes sources)
      = root.dataBytes o.blockBytes sources :=
  root.flatMap_files sources Layout.rootPath
    (Nat.lt_of_le_of_lt (Nat.le_add_left ..) h.totalBlocks_lt)

/-! ## Assembling -/

/-- Put behind a blank block zero, the tables and files of a placeable tree fill the rest of its
image. -/
theorem content_of_wrote (h : root.Placeable o) (readable : (root.layout o).Readable sources)
    {w w' : Writer} {progress : Progress}
    (length : w.content.length = (root.layout o).imageLength) (blank : w.Blank o.blockBytes)
    (wrote : Writer.Wrote (1 * o.blockBytes)
      ((root.layout o).tables.flatMap (·.image o.blockBytes)
        ++ (root.layout o).files.flatMap (·.image o.blockBytes sources)) progress w w') :
    w'.content.length = (root.layout o).imageLength
      ∧ w'.content = List.replicate o.blockBytes 0 ++ (root.tableBytes o 1 (root.spot o)
        ++ root.dataBytes o.blockBytes sources) := by
  have middle := Writer.length_flatMap_of_tiles h.length_table h.tiling.tablesTile
  have last := Writer.length_flatMap_of_tiles
    (fun f mem => h.length_file f mem (readable f mem)) h.tiling.filesTile
  have all : w.content.length = 1 * o.blockBytes
      + ((root.layout o).tables.flatMap (·.image o.blockBytes)
        ++ (root.layout o).files.flatMap (·.image o.blockBytes sources)).length := by
    rw [length, List.length_append, ← Nat.add_assoc, ← middle, ← last]
    rfl
  have within : 1 * o.blockBytes ≤ w.content.length := by omega
  constructor
  · rw [wrote.content_eq within, Bytes.length_put, ← all, Nat.max_self, length]
  · rw [wrote.content_eq within, Bytes.put_of_length_eq all, Nat.one_mul, h.flatMap_tables,
      h.flatMap_files sources, blank]

/-- Writing all tables and files of a placeable tree fills every block behind block zero. -/
theorem ends_content (h : root.Placeable o) (w : Writer) (size : w.blockSize = o.blockBytes)
    (start : w.progress = .start) (length : w.content.length = (root.layout o).imageLength)
    (blank : w.Blank o.blockBytes) :
    Writer.Ends (do
        (root.layout o).tables.forM Writer.writeTable
        (root.layout o).files.forM (Writer.writeFile sources)) w
      (fun _ w' => (root.layout o).Readable sources
        ∧ w'.progress = ⟨(root.layout o).tables.length, (root.layout o).files.length,
          (root.layout o).totalBlocks.toNat⟩
        ∧ w'.output.refuses = w.output.refuses
        ∧ w'.content.length = (root.layout o).imageLength
        ∧ w'.content = List.replicate o.blockBytes 0 ++ (root.tableBytes o 1 (root.spot o)
          ++ root.dataBytes o.blockBytes sources))
      (fun e w' => w'.Blank o.blockBytes ∧ ∃ r, e = .error r
        ∧ (w.Refused r ∨ (root.layout o).Changed sources r)) := by
  have pos := Options.blockBytes_pos_of_validate h.valid
  have small := Options.le_largest_of_validate h.valid
  have first : o.blockBytes ≤ 1 * o.blockBytes := Nat.le_of_eq (Nat.one_mul _).symm
  have behind : o.blockBytes ≤ (root.layout o).dataStart.toNat * o.blockBytes := by
    rw [h.tiling.dataStart, Nat.add_mul, Nat.one_mul]
    exact Nat.le_add_right ..
  have tables := Writer.ends_forM (root.layout o).tables size
    (fun t mem => Writer.fills_table pos small (h.tables_fit t mem))
    (fun t mem _ => h.length_table t mem) h.tiling.tablesTile (by rw [start]; rfl)
  refine Writer.Ends.bind (tables.mono (fun _ _ => id) ?_) ?_
  · rintro e w₁ ⟨_, stopped⟩
    obtain ⟨r, rfl, refused | ⟨_, _, none⟩⟩ := stopped.cause
    · exact ⟨blank.of_stopped stopped first, r, rfl, .inl refused⟩
    · exact none.elim
  · rintro _ w₁ ⟨_, wrote⟩
    have blank₁ := blank.of_wrote wrote first
    have files := Writer.ends_forM (root.layout o).files (wrote.blockSize.trans size)
      (fun f mem => Writer.fills_file pos small sources (h.files_count f mem)) h.length_file
      h.tiling.filesTile (by rw [wrote.progress]; rfl)
    refine files.mono ?_ ?_
    · rintro _ w₂ ⟨readable, more⟩
      have middle := Writer.length_flatMap_of_tiles h.length_table h.tiling.tablesTile
      have whole := wrote.trans more middle
      refine ⟨readable, ?_, whole.refuses, h.content_of_wrote readable length blank whole⟩
      rw [more.progress, wrote.progress, start]
      simp only [Progress.more, Progress.start, Nat.mul_one, Nat.mul_zero, Nat.zero_add,
        Nat.add_zero]
    · rintro e w₂ ⟨_, stopped⟩
      refine ⟨blank₁.of_stopped stopped behind, ?_⟩
      obtain ⟨r, rfl, ⟨path, refused⟩ | changed⟩ := stopped.cause
      · exact ⟨r, rfl, .inl ⟨path, wrote.refusal refused⟩⟩
      · exact ⟨r, rfl, .inr changed⟩

/-- An assembly ends with the encoding of the tree, or with what `Remains` says. It fails only where
a call is refused or a content is not the planned one. -/
theorem ends_assemble (h : root.Placeable o) (sources : Sources) (before : Output) :
    Writer.Ends ((root.layout o).assemble sources) (.new before o.blockBytes)
      (fun s w => s = root.summary o ∧ (root.layout o).Readable sources
        ∧ w.content = root.encode o sources)
      (fun e w => ∃ r, e = .error r
        ∧ ((Writer.new before o.blockBytes).Refused r ∨ (root.layout o).Changed sources r)
        ∧ root.Remains o sources before w.output) := by
  have small := Options.le_largest_of_validate h.valid
  have header := Options.recordSize_le_of_validate h.valid
  have steps : (root.layout o).assemble sources = (root.layout o).reserve >>= fun _ =>
      (do
        (root.layout o).tables.forM Writer.writeTable
        (root.layout o).files.forM (Writer.writeFile sources)) >>= fun _ =>
      get >>= fun w => (root.layout o).finish w.progress := by
    simp only [Layout.assemble, bind_assoc]
  rw [steps]
  refine Writer.Ends.bind ((Writer.ends_reserve (root.layout o)
    (.new before o.blockBytes) small h.blockBytes_le_imageLength).mono (fun _ _ => id) ?_) ?_
  · rintro _ w ⟨r, rfl, refused, same | blank⟩
    · exact ⟨r, rfl, .inl refused, .untouched same⟩
    · exact ⟨r, rfl, .inl refused, .blank blank⟩
  · intro _ w reserved
    have refuses := reserved.refuses
    refine Writer.Ends.bind ((h.ends_content w reserved.blockSize reserved.progress
      reserved.length reserved.blank).mono (fun _ _ => id) ?_) ?_
    · rintro _ w₁ ⟨blank, r, rfl, why⟩
      refine ⟨r, rfl, why.imp_left ?_, .blank blank⟩
      rintro ⟨path, refused⟩
      exact ⟨path, by rwa [Writer.Refusal, refuses] at refused⟩
    · rintro _ w₁ ⟨readable, progress, same, length, content⟩
      have complete : (root.layout o).shortfall? w₁.progress = none := by
        simp only [Layout.shortfall?, progress, ne_eq, not_true_eq_false, or_self, if_false]
      have encoded : w₁.content.put 0 (root.superblock o).encode = root.encode o sources := by
        rw [content, Bytes.put_zero_replicate (by rwa [Superblock.length_encode]), encode,
          List.append_assoc]
      refine Writer.Ends.get ((Writer.ends_finish complete h.superblock_eq h.summary_eq w₁ length
        (Nat.le_trans header h.blockBytes_le_imageLength)).mono ?_ ?_)
      · rintro s w₂ ⟨rfl, done⟩
        exact ⟨rfl, readable, done.trans encoded⟩
      · rintro _ w₂ ⟨r, rfl, ⟨path, refused⟩, left⟩
        rw [Writer.Refusal, same, refuses] at refused
        refine ⟨r, rfl, .inl ⟨path, refused⟩, ?_⟩
        obtain unchanged | ⟨done, last⟩ := left
        · refine .blank ?_
          change w₂.content.take _ = _
          rw [unchanged, content]
          exact List.take_left' List.length_replicate
        · exact .complete readable (done.trans encoded) last

theorem compile_eq (h : root.Placeable o) (sources : Sources) (before : Output) :
    root.compile sources o before
      = ((((root.layout o).assemble sources).run.run (.new before o.blockBytes)).1,
        (((root.layout o).assemble sources).run.run (.new before o.blockBytes)).2.output) := by
  have planned := plan_eq_ok_iff.2 ⟨h, rfl⟩
  simp only [compile, planned]
  rfl

variable {before after : Output}

/-- What a compilation that succeeds has done. -/
theorem of_compile_ok (h : root.Placeable o) {s : Summary}
    (run : root.compile sources o before = (.ok s, after)) :
    s = root.summary o ∧ (root.layout o).Readable sources
      ∧ after.content.toList = root.encode o sources := by
  rw [h.compile_eq] at run
  obtain ⟨result, rfl⟩ := Prod.mk.inj run
  exact (h.ends_assemble sources before).of_ok (Prod.ext result rfl)

theorem of_compile_error (h : root.Placeable o) {e : Fault RunError}
    (run : root.compile sources o before = (.error e, after)) :
    ∃ r, e = .error r
      ∧ ((Writer.new before o.blockBytes).Refused r ∨ (root.layout o).Changed sources r)
      ∧ root.Remains o sources before after := by
  rw [h.compile_eq] at run
  obtain ⟨result, rfl⟩ := Prod.mk.inj run
  exact (h.ends_assemble sources before).of_error (Prod.ext result rfl)

/-- A placeable tree whose contents are as planned compiles into every destination that refuses
nothing. -/
theorem compile_of_readable (h : root.Placeable o) (readable : (root.layout o).Readable sources)
    (before : Output) (refuses : before.refuses = fun _ _ => none) : ∃ after,
      root.compile sources o before = (.ok (root.summary o), after)
        ∧ after.content.toList = root.encode o sources := by
  rcases run : root.compile sources o before with ⟨result, after⟩
  cases result with
  | ok s =>
    obtain ⟨rfl, _, encoded⟩ := h.of_compile_ok run
    exact ⟨after, rfl, encoded⟩
  | error e =>
    obtain ⟨r, _, refused | ⟨f, mem, lacks, _⟩, _⟩ := h.of_compile_error run
    · exact absurd refused (Writer.not_refused refuses r)
    · exact absurd (readable f mem) lacks

theorem compile_accepting (h : root.Placeable o) (readable : (root.layout o).Readable sources)
    (content : Blob) : ∃ after, root.compile sources o (.accepting content)
        = (.ok (root.summary o), after) ∧ after.content.toList = root.encode o sources :=
  h.compile_of_readable readable (.accepting content) rfl

end Placeable

/-! ## The small tree -/

theorem sample_placeable_stamped (t : Option UInt64) : sample.Placeable { timestamp := t } :=
  ⟨sample_placeable.valid, sample_placeable.room, sample_placeable.placed⟩

/-- The small tree has all its contents in itself. -/
theorem sample_readable (t : Option UInt64) (sources : Sources) :
    (sample.layout { timestamp := t }).Readable sources := by
  intro f mem
  obtain rfl := List.mem_singleton.1 mem
  exact Content.holds_inline.2 rfl

/-- The small tree has an image under every timestamp. -/
theorem exists_image_sample (t : Option UInt64) (sources : Sources) :
    ∃ bytes, sample.image sources { timestamp := t } = .ok bytes := by
  obtain ⟨after, run, _⟩ :=
    (sample_placeable_stamped t).compile_accepting (sample_readable t sources) (.hole 0)
  refine ⟨after.content.toBuffer, ?_⟩
  simp only [image, run]
  rfl

/-- A tree that cannot be placed leaves its destination alone. -/
theorem compile_of_not_placeable (h : ¬ root.Placeable o) (sources : Sources) (before : Output) :
    ∃ e, Layout.plan root o = .error e ∧ root.compile sources o before = (.error e, before) := by
  cases planned : Layout.plan root o with
  | ok l => exact absurd (plan_eq_ok_iff.1 planned).1 h
  | error e =>
    refine ⟨e, rfl, ?_⟩
    simp only [compile, planned]

/-! ## What a run leaves -/

/-- A run that succeeds leaves the encoding of the tree, whatever was there before and however the
destination answers. -/
theorem encode_of_compile {before after : Output} {s : Summary}
    (h : root.compile sources o before = (.ok s, after)) :
    after.content.toList = root.encode o sources := by
  by_cases placeable : root.Placeable o
  · exact (placeable.of_compile_ok h).2.2
  · obtain ⟨e, _, failed⟩ := compile_of_not_placeable placeable sources before
    cases h.symm.trans failed

/-- The small tree over five zeros. -/
theorem encode_of_compile_sample : ∃ s after,
    sample.compile (fun _ => .error (.described "missing")) {} (.accepting (.hole 5))
        = (.ok s, after)
      ∧ after.content.toList = sample.encode {} fun _ => .error (.described "missing") := by
  obtain ⟨after, run, _⟩ := sample_placeable.compile_accepting (sample_readable none _) (.hole 5)
  exact ⟨_, after, run, encode_of_compile run⟩

/-- The destination of a run that failed. -/
inductive Aftermath (o : Options) (sources : Sources) (root : Directory) (e : Fault RunError)
    (before after : Output) : Prop where
  /-- There was no layout, and nothing was called. -/
  | unplanned (failed : Layout.plan root o = .error e) (same : after = before)
  /-- The first call was refused. -/
  | refused (same : after = { before with calls := before.calls.push (.write 0 o.blockBytes) })
  /-- Block zero is blank, and what starts with it is not opened. -/
  | blank (zeros : after.content.toList.take o.blockBytes = List.replicate o.blockBytes 0)
      (closed : Image.ofBytes after.content.toBuffer
        = Fault.fail (.badMagic (Vector.replicate 8 0)))
  /-- The image is the one that a run leaves when nothing is refused. Only the last change of length
  or the flush was. -/
  | complete (image : ∀ content, ∃ s other,
        root.compile sources o (.accepting content) = (.ok s, other)
          ∧ other.content.toList = after.content.toList)
      (last : after.calls.back? = some (.setLength (root.layout o).imageLength)
        ∨ after.calls.back? = some .flush)

/-- Wherever a run fails, its destination is as it was, or starts with a blank block, or holds the
whole image. -/
theorem aftermath_of_compile {before after : Output} {e : Fault RunError}
    (h : root.compile sources o before = (.error e, after)) :
    root.Aftermath o sources e before after := by
  by_cases placeable : root.Placeable o
  · obtain ⟨_, _, _, same | zeros | ⟨readable, encoded, last⟩⟩ := placeable.of_compile_error h
    · exact .refused same
    · refine .blank zeros (Image.ofBytes_of_blank ?_)
      have header := Options.recordSize_le_of_validate placeable.valid
      have start := congrArg (List.take Geometry.recordSize) zeros
      rwa [List.take_take, List.take_replicate, Nat.min_eq_left header,
        ← Blob.ofBuffer_toBuffer] at start
    · refine .complete (fun content => ?_) last
      obtain ⟨other, run, bytes⟩ := placeable.compile_accepting readable content
      exact ⟨_, other, run, bytes.trans encoded.symm⟩
  · obtain ⟨_, planned, failed⟩ := compile_of_not_placeable placeable sources before
    cases h.symm.trans failed
    exact .unplanned planned rfl

/-- A small tree whose file is shorter than it was. -/
def shortened : Directory := .mk 0 (.cons [0x62] (.file ⟨7, 3, .inline ⟨#[1, 2]⟩⟩) .nil)

/-- The run on the shortened file stops behind its table. -/
theorem aftermath_of_compile_shortened : ∃ e after,
    shortened.compile (fun _ => .error (.described "missing")) {} (.accepting (.hole 5))
        = (.error e, after)
      ∧ shortened.Aftermath {} (fun _ => .error (.described "missing")) e (.accepting (.hole 5))
        after := by
  have placeable : shortened.Placeable {} := ⟨rfl, by decide, by decide⟩
  rcases run : shortened.compile (fun _ => .error (.described "missing")) {}
    (.accepting (.hole 5)) with ⟨result, after⟩
  cases result with
  | error e => exact ⟨e, after, rfl, aftermath_of_compile run⟩
  | ok s =>
    obtain ⟨_, found, _, size⟩ := (placeable.of_compile_ok run).2.1 _ List.mem_cons_self
    obtain rfl := Except.ok.inj found
    cases size

end Directory

end FlatImage
