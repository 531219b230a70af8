import FlatImage.Proofs.Reading
import FlatImage.Proofs.Writing.Assembly

/-!
# Every table and every file in its own blocks

What one call of the writer leaves in its destination, seen from the bytes of the destination: the
blocks of the table or file hold its bytes and zeros behind them, and whatever the destination had
outside these blocks is there as before. Neighbours stay also when the call fails, wherever it
stops, and then nothing counts as written.
-/

namespace FlatImage

namespace Bytes

variable {content piece : Bytes} {offset : Nat}

/-- A piece that was put stands where it was put, even when the content did not reach so far. -/
theorem at_put (content : Bytes) (offset : Nat) (piece : Bytes) :
    (content.put offset piece).At offset piece := by
  have front : (content.take offset ++ List.replicate (offset - content.length) 0).length
      = offset := by
    rw [List.length_append, List.length_take, List.length_replicate]
    omega
  have behind : (content.put offset piece).drop offset
      = piece ++ content.drop (offset + piece.length) := by
    rw [put, List.append_assoc _ piece]
    exact List.drop_left' front
  exact ⟨_, behind.symm⟩

/-- A byte outside of a piece that was put is the one that was there. -/
theorem getElem?_put {i : Nat} {b : UInt8} (had : content[i]? = some b)
    (outside : i < offset ∨ offset + piece.length ≤ i) :
    (content.put offset piece)[i]? = some b := by
  obtain before | behind := outside
  · have within : i < content.length := (List.getElem?_eq_some_iff.1 had).1
    have same : (content.put offset piece).take (i + 1) = content.take (i + 1) :=
      take_put before within
    rw [← List.getElem?_take_of_lt (Nat.lt_succ_self i), same,
      List.getElem?_take_of_lt (Nat.lt_succ_self i), had]
  · have same : (content.put offset piece).drop i = content.drop i := drop_put behind
    have first := congrArg (·[0]?) same
    simpa only [List.getElem?_drop, Nat.add_zero, had] using first

end Bytes

namespace Writer

variable {start room : Nat} {piece : Bytes} {progress : Progress} {w w' : Writer}

/-- Every byte that the destination had outside of a range is still there. -/
def Keeps (start stop : Nat) (w w' : Writer) : Prop :=
  ∀ i b, w.content[i]? = some b → i < start ∨ stop ≤ i → w'.content[i]? = some b

/-- A range holds exactly a piece, and nothing else was touched. -/
structure InPlace (start stop : Nat) (piece : Bytes) (w w' : Writer) : Prop where
  whole : start + piece.length = stop
  stands : w'.content.At start piece
  keeps : w.Keeps start stop w'

/-- At most some bytes of a range were touched, and nothing counts as written. -/
structure Abandoned (start stop : Nat) (w w' : Writer) : Prop where
  keeps : w.Keeps start stop w'
  progress : w'.progress = w.progress

theorem Wrote.keeps (wrote : Wrote start piece progress w w') (small : piece.length ≤ room) :
    w.Keeps start (start + room) w' := by
  intro i b had outside
  obtain put | ⟨_, same⟩ := wrote.put
  · rw [put]
    exact Bytes.getElem?_put had (outside.imp_right (Nat.le_trans (Nat.add_le_add_left small _)))
  · rwa [same]

theorem Wrote.inPlace (wrote : Wrote start piece progress w w') (length : piece.length = room) :
    InPlace start (start + room) piece w w' where
  whole := congrArg (start + ·) length
  stands := by
    obtain put | ⟨rfl, _⟩ := wrote.put
    · rw [put]
      exact Bytes.at_put ..
    · exact List.nil_prefix
  keeps := wrote.keeps (Nat.le_of_eq length)

theorem Stopped.abandoned {cause : RunError → Prop} {e : Fault RunError}
    (stopped : Stopped start room w.progress cause w e w') :
    Abandoned start (start + room) w w' := by
  obtain ⟨piece, small, wrote⟩ := stopped.wrote
  exact ⟨wrote.keeps small, wrote.progress⟩

/-! ## One call of the writer -/

/-- A call fills the blocks of an extent and counts them, or it leaves everything outside of them
and the progress as they were. -/
structure WritesOnly (start count : UInt32) (image : Bytes) (counted : Progress → Progress)
    (write : Writing Unit) (w : Writer) : Prop where
  ends : Ends write w
    (fun _ w' => InPlace (start.toNat * w.blockSize) ((start.toNat + count.toNat) * w.blockSize)
      image w w' ∧ w'.progress = counted (w.progress.reach start count))
    (fun _ w' => Abandoned (start.toNat * w.blockSize)
      ((start.toNat + count.toNat) * w.blockSize) w w')

theorem WritesOnly.of_ok {first count : UInt32} {counted : Progress → Progress}
    {write : Writing Unit} (h : WritesOnly first count piece counted write w)
    (run : write.run.run w = (.ok (), w')) :
    InPlace (first.toNat * w.blockSize) ((first.toNat + count.toNat) * w.blockSize) piece w w'
      ∧ w'.progress = counted (w.progress.reach first count) := h.ends.of_ok run

theorem writesOnly_writeTable (t : PlannedTable) (pos : 0 < w.blockSize)
    (small : w.blockSize ≤ 4096)
    (fits : t.records.length * Geometry.recordSize ≤ t.count.toNat * w.blockSize) :
    WritesOnly t.start t.count (t.image w.blockSize)
      (fun p => { p with tables := p.tables + 1 }) (writeTable t) w := by
  have length : (t.image w.blockSize).length = t.count.toNat * w.blockSize :=
    Bytes.length_padTo_of_le (by rwa [Record.length_encodeMany])
  refine ⟨?_⟩
  rw [Nat.add_mul]
  exact (ends_writeTable t w pos small fits).mono
    (fun _ _ wrote => ⟨wrote.inPlace length, wrote.progress⟩) fun _ _ stopped => stopped.abandoned

theorem writesOnly_writeFile (sources : Sources) (f : PlannedFile) (pos : 0 < w.blockSize)
    (small : w.blockSize ≤ 4096)
    (count : f.count.toNat = Geometry.blocksFor f.size.toNat w.blockSize) :
    WritesOnly f.start f.count (f.image w.blockSize sources)
      (fun p => { p with files := p.files + 1 }) (writeFile sources f) w := by
  have room : f.size.toNat ≤ f.count.toNat * w.blockSize := by
    rw [count]
    exact Geometry.le_blocksFor_mul pos
  refine ⟨?_⟩
  rw [Nat.add_mul]
  refine (ends_writeFile sources f w pos small count).mono (fun _ w' filed => ?_)
    fun _ _ stopped => stopped.abandoned
  have length : (f.image w.blockSize sources).length = f.count.toNat * w.blockSize :=
    Bytes.length_padTo_of_le (by rwa [filed.holds.length_bytes])
  exact ⟨filed.wrote.inPlace length, filed.wrote.progress⟩

/-- A table of records that fit fills its blocks with them and zeros. A file with as many blocks as
its size needs fills them with its content and zeros; a destination that accepts every call gets it
exactly when the content has the planned size. Whatever either call does, bytes that were there
outside of the blocks stay, and after a failure nothing more counts as written. -/
theorem writes_only_own_blocks (sources : Sources) (w : Writer) (pos : 0 < w.blockSize)
    (small : w.blockSize ≤ 4096) :
    (∀ t : PlannedTable,
      t.records.length * Geometry.recordSize ≤ t.count.toNat * w.blockSize →
        WritesOnly t.start t.count
          (Bytes.padTo (t.count.toNat * w.blockSize) (Record.encodeMany t.records))
          (fun p => { p with tables := p.tables + 1 }) (writeTable t) w
        ∧ (w.output.refuses = (fun _ _ => none) →
          ∃ w', (writeTable t).run.run w = (.ok (), w')))
      ∧ ∀ f : PlannedFile, f.count.toNat = Geometry.blocksFor f.size.toNat w.blockSize →
        WritesOnly f.start f.count
          (Bytes.padTo (f.count.toNat * w.blockSize) (f.content.bytes sources))
          (fun p => { p with files := p.files + 1 }) (writeFile sources f) w
        ∧ (w.output.refuses = (fun _ _ => none) →
          ((∃ w', (writeFile sources f).run.run w = (.ok (), w'))
            ↔ f.content.Holds sources f.size.toNat)) := by
  refine ⟨fun t fits => ⟨writesOnly_writeTable t pos small fits, fun accepting => ?_⟩,
    fun f count => ⟨writesOnly_writeFile sources f pos small count, fun accepting => ?_⟩⟩
  · obtain ⟨_, w', run, _⟩ := (ends_writeTable t w pos small fits).exists_ok fun e w' stopped => by
      obtain ⟨r, _, refused⟩ := stopped.cause
      exact not_refused accepting r ⟨_, refused⟩
    exact ⟨w', run⟩
  · have ends := ends_writeFile sources f w pos small count
    constructor
    · rintro ⟨w', run⟩
      exact (ends.of_ok run).holds
    · intro holds
      obtain ⟨_, w', run, _⟩ := ends.exists_ok fun e w' stopped => by
        obtain ⟨r, _, refused | ⟨lacks, _⟩⟩ := stopped.cause
        · exact not_refused accepting r ⟨_, refused⟩
        · exact lacks holds
      exact ⟨w', run⟩

/-- The table of two records goes into block one of a destination that has four blocks, and the file
of three bytes into block two. -/
theorem writes_only_own_blocks_sample : ∃ w₁ w₂,
    (writeTable ⟨Layout.rootPath, 1, 1, Directory.sample.entries.records {} 1 ⟨2, 3⟩⟩).run.run
        ⟨512, .accepting (.hole 2048), .start⟩ = (.ok (), w₁)
      ∧ w₁.content.At 512 (Bytes.padTo 512
        (Record.encodeMany (Directory.sample.entries.records {} 1 ⟨2, 3⟩)))
      ∧ (writeFile (fun _ => .error (.described "missing"))
          ⟨[0x2f, 0x62], 2, 1, 3, .inline ⟨#[1, 2, 3]⟩⟩).run.run
        ⟨512, .accepting (.hole 2048), .start⟩ = (.ok (), w₂)
      ∧ w₂.content.At 1024 (Bytes.padTo 512 [1, 2, 3])
      ∧ w₂.progress = ⟨0, 1, 3⟩ := by
  obtain ⟨tables, files⟩ := writes_only_own_blocks (fun _ => .error (.described "missing"))
    ⟨512, .accepting (.hole 2048), .start⟩ (by decide) (by decide)
  have table := tables
    ⟨Layout.rootPath, 1, 1, Directory.sample.entries.records {} 1 ⟨2, 3⟩⟩ (by decide)
  have file := files ⟨[0x2f, 0x62], 2, 1, 3, .inline ⟨#[1, 2, 3]⟩⟩ rfl
  obtain ⟨w₁, run₁⟩ := table.2 rfl
  obtain ⟨w₂, run₂⟩ := (file.2 rfl).2 (Content.holds_inline.2 rfl)
  obtain ⟨inPlace, counted⟩ := file.1.of_ok run₂
  exact ⟨w₁, w₂, run₁, (table.1.of_ok run₁).1.stands, run₂, inPlace.stands, counted⟩

end Writer

end FlatImage
