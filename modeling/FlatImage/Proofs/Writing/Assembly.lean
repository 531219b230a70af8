import FlatImage.Proofs.Layout.Tiling
import FlatImage.Proofs.Writing.Entry

/-!
# Assembling an image

The steps of an assembly in order: block zero is blanked and the length fixed, tables and files are
written behind it, and the superblock is put over the blank block at the very end. Since tables and
files tile the blocks behind block zero, what they leave there is the concatenation of their images,
and block zero stays blank until the superblock comes.
-/

namespace FlatImage

/-- Progress with more tables and files, that ends at a block. -/
def Progress.more (p : Progress) (tables files endBlock : Nat) : Progress :=
  ⟨p.tables + tables, p.files + files, endBlock⟩

namespace Writer

/-- Block zero holds nothing but zeros. -/
def Blank (blockSize : Nat) (w : Writer) : Prop :=
  w.content.take blockSize = List.replicate blockSize 0

namespace Blank

variable {blockSize : Nat} {w w' : Writer}

theorem le_length (blank : w.Blank blockSize) : blockSize ≤ w.content.length := by
  have length := congrArg List.length blank
  rw [List.length_take, List.length_replicate] at length
  omega

/-- What is put behind block zero leaves it blank. -/
theorem of_wrote {offset : Nat} {piece : Bytes} {progress : Progress} (blank : w.Blank blockSize)
    (wrote : Wrote offset piece progress w w') (behind : blockSize ≤ offset) :
    w'.Blank blockSize := by
  obtain put | ⟨_, same⟩ := wrote.put
  · rw [Blank, put, Bytes.take_put behind blank.le_length]
    exact blank
  · rw [Blank, same]
    exact blank

/-- A run that stops behind block zero leaves it blank. -/
theorem of_stopped {offset room : Nat} {progress : Progress} {cause : RunError → Prop}
    {e : Fault RunError} (blank : w.Blank blockSize)
    (stopped : Stopped offset room progress cause w e w') (behind : blockSize ≤ offset) :
    w'.Blank blockSize := by
  obtain ⟨piece, _, wrote⟩ := stopped.wrote
  exact blank.of_wrote wrote behind

end Blank

/-- A failure to write what some path names that goes back to a refused call. -/
def Refused (w : Writer) (e : RunError) : Prop := ∃ path, w.Refusal path e

theorem not_refused {w : Writer} (accepting : w.output.refuses = fun _ _ => none) (e : RunError) :
    ¬ w.Refused e := by
  rintro ⟨_, _, _, _, refused, _⟩
  rw [accepting] at refused
  cases refused

/-! ## Writing one thing after another -/

section

variable {α : Type} {blockSize : Nat} {write : α → Writing Unit} {extent : α → Extent}
variable {image : α → Bytes} {good : α → Prop} {blame : α → RunError → Prop}
variable {tables files : Nat}

/-- Writing one thing fills its blocks with its image and counts so many tables and files, when the
thing is good. Otherwise, or when a call is refused, a part of the blocks is filled at most. -/
def Fills (blockSize : Nat) (write : α → Writing Unit) (extent : α → Extent) (image : α → Bytes)
    (good : α → Prop) (blame : α → RunError → Prop) (tables files : Nat) (x : α) : Prop :=
  ∀ w : Writer, w.blockSize = blockSize → w.progress.endBlock = (extent x).start →
    Ends (write x) w
      (fun _ w' => good x ∧ Wrote ((extent x).start * blockSize) (image x)
        (w.progress.more tables files ((extent x).start + (extent x).count)) w w')
      (Stopped ((extent x).start * blockSize) ((extent x).count * blockSize) w.progress
        (fun e => w.Refused e ∨ blame x e) w)

/-- Things that fill adjacent blocks fill them all together. -/
theorem ends_forM (xs : List α) {first last : Nat} {w : Writer} (size : w.blockSize = blockSize)
    (fills : ∀ x ∈ xs, Fills blockSize write extent image good blame tables files x)
    (length : ∀ x ∈ xs, good x → (image x).length = (extent x).count * blockSize)
    (tiles : Extent.Tiles first (xs.map extent) last) (reached : w.progress.endBlock = first) :
    Ends (xs.forM write) w
      (fun _ w' => (∀ x ∈ xs, good x) ∧ Wrote (first * blockSize) (xs.flatMap image)
        (w.progress.more (xs.length * tables) (xs.length * files) last) w w')
      (fun e w' => ∃ progress, Stopped (first * blockSize) ((last - first) * blockSize) progress
        (fun e => w.Refused e ∨ ∃ x ∈ xs, blame x e) w e w') := by
  induction xs generalizing first w with
  | nil =>
    obtain rfl : first = last := tiles
    have same : w.progress.more (0 * tables) (0 * files) first = w.progress := by
      simp only [Progress.more, Nat.zero_mul, Nat.add_zero, ← reached]
    refine Ends.pure ⟨nofun, ?_⟩
    rw [List.length_nil, same]
    exact Wrote.refl _ w
  | cons x rest ih =>
    obtain ⟨rfl, tiles⟩ := tiles
    have onward := tiles.le
    have own := fills x List.mem_cons_self w size reached
    refine Ends.bind (own.mono (fun _ _ => id) fun e w' stopped => ⟨_, stopped.mono ?_ ?_⟩) ?_
    · exact Nat.mul_le_mul_right _ (by omega)
    · exact Or.imp_right fun why => ⟨x, List.mem_cons_self, why⟩
    · rintro _ w₁ ⟨fine, wrote⟩
      have behind : ((extent x).start + (extent x).count) * blockSize
          = (extent x).start * blockSize + (image x).length := by
        rw [length x List.mem_cons_self fine, Nat.add_mul]
      have others := ih (w := w₁) (wrote.blockSize.trans size)
        (fun y mem => fills y (List.mem_cons_of_mem _ mem))
        (fun y mem => length y (List.mem_cons_of_mem _ mem)) tiles
        (by rw [wrote.progress]; rfl)
      refine others.mono ?_ ?_
      · rintro _ w₂ ⟨fine', more⟩
        have whole := wrote.trans more behind
        have counted : w₁.progress.more (rest.length * tables) (rest.length * files) last
            = w.progress.more ((x :: rest).length * tables) ((x :: rest).length * files) last := by
          rw [wrote.progress]
          simp only [Progress.more, List.length_cons, Nat.add_mul, Nat.one_mul]
          congr 1 <;> omega
        rw [counted] at whole
        exact ⟨List.forall_mem_cons.2 ⟨fine, fine'⟩, whole⟩
      · rintro e w₂ ⟨progress, stopped⟩
        refine ⟨progress, (wrote.stopped stopped behind).mono ?_ ?_⟩
        · rw [length x List.mem_cons_self fine, ← Nat.add_mul]
          exact Nat.mul_le_mul_right _ (by omega)
        · rintro _ (⟨path, refused⟩ | ⟨y, mem, why⟩)
          · exact .inl ⟨path, wrote.refusal refused⟩
          · exact .inr ⟨y, List.mem_cons_of_mem _ mem, why⟩

end

/-- Images that fill adjacent blocks are as long as these blocks. -/
theorem length_flatMap_of_tiles {α : Type} {blockSize first last : Nat} {extent : α → Extent}
    {image : α → Bytes} {xs : List α}
    (length : ∀ x ∈ xs, (image x).length = (extent x).count * blockSize)
    (tiles : Extent.Tiles first (xs.map extent) last) :
    last * blockSize = first * blockSize + (xs.flatMap image).length := by
  induction xs generalizing first with
  | nil =>
    obtain rfl : first = last := tiles
    rfl
  | cons x rest ih =>
    have others := ih (fun y mem => length y (List.mem_cons_of_mem _ mem)) tiles.2
    rw [others, List.flatMap_cons, List.length_append, length x List.mem_cons_self, Nat.add_mul,
      Nat.add_assoc]

/-- A table of records that fit fills its blocks. -/
theorem fills_table {blockSize : Nat} (pos : 0 < blockSize) (small : blockSize ≤ 4096)
    {t : PlannedTable}
    (fits : t.records.length * Geometry.recordSize ≤ t.count.toNat * blockSize) :
    Fills blockSize writeTable PlannedTable.extent (·.image blockSize) (fun _ => True)
      (fun _ _ => False) 1 0 t := by
  rintro w rfl reached
  have reached : w.progress.endBlock = t.start.toNat := reached
  have counted : { w.progress.reach t.start t.count with tables := w.progress.tables + 1 }
      = w.progress.more 1 0 (t.start.toNat + t.count.toNat) := by
    simp only [Progress.reach, Progress.more, reached, Nat.add_zero]
    congr 1
    omega
  have own := ends_writeTable t w pos small fits
  rw [counted] at own
  refine own.mono (fun _ w' wrote => ⟨trivial, wrote⟩) fun e w' stopped => ?_
  exact stopped.mono (Nat.le_refl _) fun refused => .inl ⟨_, refused⟩

/-- A file of planned bytes fills its blocks. -/
theorem fills_file {blockSize : Nat} (pos : 0 < blockSize) (small : blockSize ≤ 4096)
    (sources : Sources) {f : PlannedFile}
    (count : f.count.toNat = Geometry.blocksFor f.size.toNat blockSize) :
    Fills blockSize (writeFile sources) PlannedFile.extent (·.image blockSize sources)
      (fun f => f.content.Holds sources f.size.toNat)
      (fun f e => ¬ f.content.Holds sources f.size.toNat ∧ e.Unreadable f.path) 0 1 f := by
  rintro w rfl reached
  have reached : w.progress.endBlock = f.start.toNat := reached
  have counted : { w.progress.reach f.start f.count with files := w.progress.files + 1 }
      = w.progress.more 0 1 (f.start.toNat + f.count.toNat) := by
    simp only [Progress.reach, Progress.more, reached, Nat.add_zero]
    congr 1
    omega
  have own := ends_writeFile sources f w pos small count
  rw [counted] at own
  refine own.mono (fun _ w' filed => ⟨filed.holds, filed.wrote⟩) fun e w' stopped => ?_
  exact stopped.mono (Nat.le_refl _) (Or.imp_left fun refused => ⟨_, refused⟩)

/-! ## The first and the last step -/

/-- The destination has its final length and a blank block zero, and nothing counts as written. -/
structure Reserved (l : Layout) (w w' : Writer) : Prop where
  blockSize : w'.blockSize = w.blockSize
  refuses : w'.output.refuses = w.output.refuses
  progress : w'.progress = w.progress
  length : w'.content.length = l.imageLength
  blank : w'.Blank l.blockSize.toNat

/-- Reserving blanks block zero. Only where its very first call is refused it leaves the content as
it was. -/
theorem ends_reserve (l : Layout) (w : Writer) (small : l.blockSize.toNat ≤ 4096)
    (room : l.blockSize.toNat ≤ l.imageLength) :
    Ends l.reserve w (fun _ => Reserved l w)
      (fun e w' => ∃ r, e = .error r ∧ w.Refused r
        ∧ (w'.output = { w.output with
              calls := w.output.calls.push (.write 0 l.blockSize.toNat) }
          ∨ w'.Blank l.blockSize.toNat)) := by
  refine Ends.bind (Q := fun _ w' => w'.blockSize = w.blockSize
    ∧ w'.output.refuses = w.output.refuses ∧ w'.progress = w.progress
    ∧ w'.Blank l.blockSize.toNat) ?_ ?_
  · refine Ends.bind (Q := fun _ => (w = ·)) (Ends.require (decide_eq_true small) rfl) ?_
    rintro _ _ rfl
    refine Ends.call (fun _ => ⟨rfl, rfl, rfl, ?_⟩) fun cause refused => ?_
    · have put : (w.content.put 0 (List.replicate l.blockSize.toNat 0)).take
          (0 + (List.replicate l.blockSize.toNat (0 : UInt8)).length)
          = List.replicate l.blockSize.toNat 0 := Bytes.take_put_end (Nat.zero_le _)
      rw [List.length_replicate, Nat.zero_add] at put
      have written := toList_write w.output 0 (.hole l.blockSize.toNat)
      rw [Blob.toList_hole] at written
      obtain written | ⟨none, same⟩ := written
      · exact (congrArg (List.take l.blockSize.toNat) written).trans put
      · rw [none, Bytes.put_nil_of_le (Nat.zero_le _)] at put
        exact ((congrArg (List.take l.blockSize.toNat) same).trans put).trans none.symm
    · refine ⟨_, rfl, ⟨_, _, _, cause, refused, rfl⟩, .inl ?_⟩
      rw [Blob.size_hole]
  · rintro _ w₁ ⟨size, refuses, progress, blank⟩
    refine Ends.call (fun _ => ⟨size, refuses, progress, ?_, ?_⟩) fun cause refused => ?_
    · rw [content, Blob.toList_resize, List.length_append, List.length_take,
        List.length_replicate, Blob.length_toList]
      omega
    · have long := blank.le_length
      rw [Blank, content, Blob.toList_resize, List.take_append_of_le_length, List.take_take,
        Nat.min_eq_left room]
      · exact blank
      · rw [List.length_take]
        exact Nat.le_min.2 ⟨room, long⟩
    · rw [refuses] at refused
      exact ⟨_, rfl, ⟨_, _, _, cause, refused, rfl⟩, .inr blank⟩

/-- Finishing puts the superblock. What is left when that is refused is what was there before, and
what is left when a later call is refused is complete. -/
theorem ends_finish {l : Layout} {p : Progress} {sb : Superblock} {s : Summary}
    (complete : l.shortfall? p = none) (header : l.superblock = .ok sb)
    (totals : l.summary = .ok s) (w : Writer) (length : w.content.length = l.imageLength)
    (room : Geometry.recordSize ≤ l.imageLength) :
    Ends (l.finish p) w (fun s' w' => s' = s ∧ w'.content = w.content.put 0 sb.encode)
      (fun e w' => ∃ r, e = .error r ∧ w.Refused r
        ∧ (w'.content = w.content
          ∨ w'.content = w.content.put 0 sb.encode
            ∧ (w'.output.calls.back? = some (.setLength l.imageLength)
              ∨ w'.output.calls.back? = some .flush))) := by
  unfold Layout.finish
  simp only [complete, header, totals, Except.mapError]
  refine Ends.bind (Q := fun b w' => sb = b ∧ w = w') (Ends.lift_ok ⟨rfl, rfl⟩) ?_
  rintro _ _ ⟨rfl, rfl⟩
  have put := ends_put Layout.superblockPath 0 (.ofBuffer sb.encode.toBuffer) w
  rw [Blob.toList_ofBuffer, Bytes.ofBuffer_toBuffer] at put
  refine Ends.bind (put.mono (fun _ _ => id) ?_) ?_
  · rintro e w₁ ⟨⟨r, rfl, refused⟩, piece, none, wrote⟩
    obtain rfl := List.length_eq_zero_iff.1 (Nat.le_zero.1 none)
    refine ⟨r, rfl, ⟨_, refused⟩, .inl ?_⟩
    rw [wrote.content_eq (Nat.zero_le _), Bytes.put_nil_of_le (Nat.zero_le _)]
  · intro _ w₁ wrote
    have done := wrote.content_eq (Nat.zero_le _)
    have long : w₁.content.length = l.imageLength := by
      rw [done, Bytes.length_put, length, Nat.zero_add, Superblock.length_encode,
        Nat.max_eq_left room]
    refine Ends.bind (Q := fun _ w₂ => w₂.output.refuses = w.output.refuses
      ∧ w₂.content = w.content.put 0 sb.encode) (Ends.call (fun _ => ⟨wrote.refuses, ?_⟩) ?_) ?_
    · have size := (Blob.length_toList w₁.output.content).symm.trans long
      rw [content, Blob.toList_resize, size, Nat.sub_self, List.replicate_zero, List.append_nil]
      exact (List.take_of_length_le (Nat.le_of_eq long)).trans done
    · intro cause refused
      rw [wrote.refuses] at refused
      exact ⟨_, rfl, ⟨_, _, _, cause, refused, rfl⟩, .inr ⟨done, .inl Array.back?_push⟩⟩
    · rintro _ w₂ ⟨refuses, same⟩
      refine Ends.bind (Q := fun _ w₃ => w₃.content = w.content.put 0 sb.encode)
        (Ends.call (fun _ => same) ?_) fun _ w₃ kept => Ends.lift_ok ⟨rfl, kept⟩
      intro cause refused
      rw [refuses] at refused
      exact ⟨_, rfl, ⟨_, _, _, cause, refused, rfl⟩, .inr ⟨same, .inr Array.back?_push⟩⟩

end Writer

end FlatImage
