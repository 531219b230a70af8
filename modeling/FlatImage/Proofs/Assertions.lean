import FlatImage.Proofs.Compilation

/-!
# Nothing that a run takes for granted fails

A run subtracts offsets and counts, fills up blocks from a supply of zeros, and expects records to
fit their table and the cursor of the tables to end where the content starts. None of this is
checked for the user: a run that were wrong about it would stop without an error. Here every run
ends with a result or with an error that it reports, and the facts that it relies on are stated for
all that a layout plans.
-/

namespace FlatImage

/-! ## The subtractions of the loops -/

namespace Writer

theorem require_bind {α : Type} {b : Bool} (holds : b = true) (next : Writing α) :
    (require b >>= fun _ => next) = next := by
  rw [require, holds]
  rfl

theorem refuse_bind {α β : Type} (e : RunError) (next : α → Writing β) :
    (refuse e : Writing α) >>= next = refuse e := rfl

/-- One round of filling up, in which an offset may only be taken from one that is not before it. -/
def fillRound (path : Path) (blockSize offset stop : Nat) : Writing Unit := do
  if 0 < blockSize ∧ offset < stop then
    let next := (offset / blockSize + 1) * blockSize
    require (offset ≤ next)
    putZeros path offset (next - offset)
    fillUp path blockSize next stop

/-- One round of copying, in which no more bytes may be counted off than remain. -/
def copyRound (path : Path) (reader : Reader) (offset remaining : Nat) : Writing Reader := do
  if remaining = 0 then return reader
  else
    let want := min remaining transferSize
    let (bytes, rest) ← collect path reader want
    if bytes.size < want then refuse (changedSize path)
    put path offset bytes
    require (bytes.size ≤ remaining)
    copy path rest (offset + bytes.size) (remaining - bytes.size)

/-- Filling up never takes an offset from one before it. -/
theorem fillUp_eq_fillRound (path : Path) (blockSize offset stop : Nat) :
    fillUp path blockSize offset stop = fillRound path blockSize offset stop := by
  rw [fillUp, fillRound]
  by_cases more : 0 < blockSize ∧ offset < stop
  · have onward := Nat.lt_mul_div_succ offset more.1
    rw [Nat.mul_comm] at onward
    rw [dif_pos more, if_pos more]
    exact (require_bind (decide_eq_true (Nat.le_of_lt onward)) _).symm
  · rw [dif_neg more, if_neg more]

/-- Copying never counts off more bytes than remain, however many its source hands out. -/
theorem copy_eq_copyRound (path : Path) (reader : Reader) (offset remaining : Nat) :
    copy path reader offset remaining = copyRound path reader offset remaining := by
  rw [copy, copyRound]
  by_cases done : remaining = 0
  · rw [dif_pos done, if_pos done]
  · rw [dif_neg done, if_neg done]
    cases found : reader.collect (min remaining transferSize) with
    | error cause =>
      have stops : collect path reader (min remaining transferSize)
          = refuse (.unreadableSource path cause) := by rw [collect, found]
      simp only [stops, refuse_bind]
    | ok all =>
      obtain ⟨bytes, rest⟩ := all
      have goes : collect path reader (min remaining transferSize) = pure (bytes, rest) := by
        rw [collect, found]
      have size : bytes.size ≤ min remaining transferSize := by
        rw [← Blob.length_toList, (Reader.collect_eq_ok found).1]
        exact List.length_take_le ..
      simp only [goes, pure_bind]
      by_cases short : bytes.size < min remaining transferSize
      · simp only [if_pos short, refuse_bind]
      · -- A source hands out no more than was asked for, so it handed out exactly that.
        have whole : bytes.size = min remaining transferSize :=
          Nat.le_antisymm size (Nat.le_of_not_lt short)
        have within : decide (bytes.size ≤ remaining) = true :=
          decide_eq_true (Nat.le_trans size (Nat.min_le_left ..))
        simp only [if_neg short, require_bind within]
        rw [whole]

end Writer

/-! ## What a layout plans -/

namespace Layout

/-- The bytes of some blocks of a layout. -/
def bytesOf (l : Layout) (e : Extent) : Geometry.ByteRange :=
  Geometry.byteRange e.start e.count l.blockSize.toNat

/-- A table's blocks are blocks of the image and hold its records, and from everywhere in them the
zeros of one supply reach the next block or the end. -/
structure TableFits (l : Layout) (t : PlannedTable) : Prop where
  inside : (l.bytesOf t.extent).stop ≤ l.imageLength
  records : t.records.length * Geometry.recordSize
    ≤ (l.bytesOf t.extent).stop - (l.bytesOf t.extent).start
  onward : ∀ offset < (l.bytesOf t.extent).stop,
    offset < (offset / l.blockSize.toNat + 1) * l.blockSize.toNat
  within : ∀ offset < (l.bytesOf t.extent).stop,
    (offset / l.blockSize.toNat + 1) * l.blockSize.toNat ≤ (l.bytesOf t.extent).stop
  near : ∀ offset < (l.bytesOf t.extent).stop,
    (offset / l.blockSize.toNat + 1) * l.blockSize.toNat - offset ≤ Geometry.largestBlock.toNat

/-- A file's blocks are blocks of the image and hold its content, and one supply of zeros reaches
their end. -/
structure FileFits (l : Layout) (f : PlannedFile) : Prop where
  inside : (l.bytesOf f.extent).stop ≤ l.imageLength
  content : (l.bytesOf f.extent).start + f.size.toNat ≤ (l.bytesOf f.extent).stop
  near : (l.bytesOf f.extent).stop - ((l.bytesOf f.extent).start + f.size.toNat)
    ≤ Geometry.largestBlock.toNat

/-- What a run takes for granted of its layout. -/
structure Assured (l : Layout) : Prop where
  blockSize_le : l.blockSize.toNat ≤ Geometry.largestBlock.toNat
  dataStart_le : l.dataStart ≤ l.totalBlocks
  /-- No offset in the image needs more than 64 bits. -/
  length_lt : l.imageLength < UInt64.size
  tables : ∀ t ∈ l.tables, l.TableFits t
  files : ∀ f ∈ l.files, l.FileFits f

end Layout

namespace Directory

variable {o : Options} {root : Directory}

namespace Placeable

/-- Blocks that do not end behind the last one are part of the image. -/
theorem stop_le_imageLength {e : Extent}
    (inside : e.start + e.count ≤ (root.layout o).totalBlocks.toNat) :
    ((root.layout o).bytesOf e).stop ≤ (root.layout o).imageLength := by
  have whole := Nat.mul_le_mul_right (root.layout o).blockSize.toNat inside
  rwa [Nat.add_mul] at whole

theorem tableFits (h : root.Placeable o) {t : PlannedTable} (mem : t ∈ (root.layout o).tables) :
    (root.layout o).TableFits t := by
  have pos : 0 < (root.layout o).blockSize.toNat := Options.blockBytes_pos_of_validate h.valid
  have small := Options.le_largest_of_validate h.valid
  have before := (h.tiling.tablesTile.within (List.mem_map_of_mem mem)).2
  have last := Nat.le_trans before (UInt32.le_iff_toNat_le.1 h.dataStart_le)
  have boundary (offset : Nat) (less : offset < ((root.layout o).bytesOf t.extent).stop) :=
    Writer.next_block pos (show offset < (t.extent.start + t.extent.count) * _ by
      rw [Nat.add_mul]
      exact less)
  refine ⟨stop_le_imageLength last, ?_, fun offset less => (boundary offset less).1,
    fun offset less => ?_, fun offset less => ?_⟩
  · rw [Layout.bytesOf, Geometry.byteRange, Nat.add_sub_cancel_left]
    exact h.tables_fit t mem
  · have inside := (boundary offset less).2.1
    rwa [Nat.add_mul t.extent.start] at inside
  · exact Nat.le_trans (boundary offset less).2.2 small

theorem fileFits (h : root.Placeable o) {f : PlannedFile} (mem : f ∈ (root.layout o).files) :
    (root.layout o).FileFits f := by
  have pos := Options.blockBytes_pos_of_validate h.valid
  have small := Options.le_largest_of_validate h.valid
  have count : f.extent.count = Geometry.blocksFor f.size.toNat o.blockBytes :=
    h.files_count f mem
  have room : f.size.toNat ≤ f.extent.count * o.blockBytes := by
    rw [count]
    exact Geometry.le_blocksFor_mul pos
  have less : f.extent.count * o.blockBytes < f.size.toNat + o.blockBytes := by
    rw [count]
    exact Geometry.blocksFor_mul_lt pos
  refine ⟨stop_le_imageLength (h.tiling.filesTile.within (List.mem_map_of_mem mem)).2,
    Nat.add_le_add_left room _, ?_⟩
  rw [Layout.bytesOf, Geometry.byteRange, Nat.add_sub_add_left]
  refine Nat.le_trans ?_ small
  change f.extent.count * o.blockBytes - _ ≤ _
  omega

theorem assured (h : root.Placeable o) : (root.layout o).Assured where
  blockSize_le := Options.le_largest_of_validate h.valid
  dataStart_le := h.dataStart_le
  length_lt := by
    have most := Nat.mul_le_mul (Nat.le_of_lt (root.layout o).totalBlocks.toNat_lt)
      (Options.le_largest_of_validate h.valid)
    exact Nat.lt_of_le_of_lt most (by decide)
  tables _ := h.tableFits
  files _ := h.fileFits

end Placeable

/-- Every run ends with a result or with an error that it reports, whatever its tree is, however
its files differ from what the tree says and wherever its destination refuses a call; with a result
where there is a layout, no file differs and no call is refused. Its plan ends so as well, all that
writing takes for granted of the layout is met, and the loops never subtract a number from a smaller
one. -/
theorem compile_ends (root : Directory) (o : Options) (sources : Sources) (before : Output) :
    ((∃ s, (root.compile sources o before).1 = .ok s)
        ∨ ∃ e, (root.compile sources o before).1 = .error (.error e))
      ∧ (∀ l content, Layout.plan root o = .ok l → l.Readable sources →
        ∃ s, (root.compile sources o (.accepting content)).1 = .ok s)
      ∧ Layout.plan root o ≠ .error .abort
      ∧ (∀ l, Layout.plan root o = .ok l → l.Assured)
      ∧ (∀ path blockSize offset stop, Writer.fillUp path blockSize offset stop
        = Writer.fillRound path blockSize offset stop)
      ∧ ∀ path reader offset remaining, Writer.copy path reader offset remaining
        = Writer.copyRound path reader offset remaining := by
  have planned : Layout.plan root o ≠ .error .abort := by
    rw [plan_eq]
    cases root.refusal? o <;> exact nofun
  refine ⟨?_, fun l content found readable => ?_, planned, fun l found => ?_,
    Writer.fillUp_eq_fillRound, Writer.copy_eq_copyRound⟩
  · by_cases placeable : root.Placeable o
    · rcases run : root.compile sources o before with ⟨result, after⟩
      cases result with
      | ok s => exact .inl ⟨s, rfl⟩
      | error e =>
        obtain ⟨r, rfl, _⟩ := placeable.of_compile_error run
        exact .inr ⟨r, rfl⟩
    · obtain ⟨e, failed, run⟩ := compile_of_not_placeable placeable sources before
      rw [run]
      cases e with
      | error e => exact .inr ⟨e, rfl⟩
      | abort => exact absurd failed planned
  · obtain ⟨placeable, rfl⟩ := plan_eq_ok_iff.1 found
    obtain ⟨_, run, _⟩ := placeable.compile_accepting readable content
    exact ⟨_, congrArg Prod.fst run⟩
  · obtain ⟨placeable, rfl⟩ := plan_eq_ok_iff.1 found
    exact placeable.assured

/-- The run on the shortened file reports an error, nothing else was wrong with its layout, and the
run on the small tree has a result. -/
theorem compile_ends_shortened :
    (∃ e, (shortened.compile (fun _ => .error (.described "missing")) {} (.accepting (.hole 5))).1
        = .error (.error e))
      ∧ (shortened.layout {}).Assured
      ∧ ∃ s, (sample.compile (fun _ => .error (.described "missing")) {}
        (.accepting (.hole 5))).1 = .ok s := by
  have placeable : shortened.Placeable {} := ⟨rfl, by decide, by decide⟩
  obtain ⟨ended, _, _, assured, _⟩ := compile_ends shortened {}
    (fun _ => .error (.described "missing")) (.accepting (.hole 5))
  obtain ⟨_, succeeds, _⟩ := compile_ends sample {} (fun _ => .error (.described "missing"))
    (.accepting (.hole 5))
  refine ⟨?_, assured _ (plan_eq_ok_iff.2 ⟨placeable, rfl⟩),
    succeeds _ _ (plan_eq_ok_iff.2 ⟨sample_placeable, rfl⟩) (sample_readable none _)⟩
  obtain ⟨s, ok⟩ | failed := ended
  · obtain ⟨_, found, _, size⟩ :=
      (placeable.of_compile_ok (Prod.ext ok rfl)).2.1 _ List.mem_cons_self
    obtain rfl := Except.ok.inj found
    cases size
  · exact failed

end Directory

end FlatImage
