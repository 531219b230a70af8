import FlatImage.Proofs.Encoding
import FlatImage.Proofs.Reader
import FlatImage.Proofs.Writing.Contract

/-!
# Writing one table or one file

A table or a file fills exactly its own blocks: its bytes, and zeros up to the end of the last
block. When it stops before, at most a part of these blocks has been put and nothing is counted,
and it stops only because a call was refused or because a source does not have the bytes that were
planned.
-/

namespace FlatImage

/-- A failure to read what a path names. -/
def RunError.Unreadable (path : Path) (e : RunError) : Prop :=
  ∃ cause, e = .unreadableSource path cause

/-- A reader hands out exactly so many bytes and ends there. -/
def Reader.Holds (r : Reader) (size : Nat) : Prop := r.failure = none ∧ r.ahead.length = size

/-- After some bytes were taken from a reader, it holds those and no others exactly when nothing is
left. -/
theorem Reader.holds_iff_of_drop {r rest : Reader} {n : Nat} (left : rest.ahead = r.ahead.drop n)
    (same : rest.failure = r.failure) (enough : n ≤ r.ahead.length) :
    r.Holds n ↔ rest.Holds 0 := by
  rw [Holds, Holds, left, same, List.length_drop]
  refine and_congr Iff.rfl ?_
  omega

/-- A content that was found holds so many bytes exactly when its reader does. -/
theorem Content.holds_iff {sources : Sources} {c : Content} {source : Source}
    (found : c.source sources = .ok source) (size : Nat) :
    c.Holds sources size ↔ Reader.Holds { source with } size := by
  have length : (Reader.ahead { source with }).length = source.content.size :=
    Blob.length_toList _
  simp only [Holds, Reader.Holds, found, Except.ok.injEq, exists_eq_left', length]

namespace Writer

variable {blockSize : Nat}

/-! ## Zeros up to the end of a block -/

/-- The next block boundary is behind an offset, within a whole number of blocks behind it, and not
more than a block away. -/
theorem next_block (pos : 0 < blockSize) {offset blocks : Nat}
    (more : offset < blocks * blockSize) :
    offset < (offset / blockSize + 1) * blockSize
      ∧ (offset / blockSize + 1) * blockSize ≤ blocks * blockSize
      ∧ (offset / blockSize + 1) * blockSize - offset ≤ blockSize := by
  have split := Nat.div_add_mod offset blockSize
  have rest := Nat.mod_lt offset pos
  have inside : offset / blockSize < blocks :=
    Nat.div_lt_of_lt_mul (by rwa [Nat.mul_comm] at more)
  have whole := Nat.mul_le_mul_right blockSize inside
  rw [Nat.mul_comm] at split
  refine ⟨?_, whole, ?_⟩
  · rw [Nat.add_mul]
    omega
  · rw [Nat.add_mul]
    omega

/-- Filling up puts zeros from an offset to the end of a block. -/
theorem ends_fillUp (path : Path) (pos : 0 < blockSize) (small : blockSize ≤ 4096)
    (offset blocks : Nat) (w : Writer) :
    Ends (fillUp path blockSize offset (blocks * blockSize)) w
      (fun _ => Wrote offset (List.replicate (blocks * blockSize - offset) 0) w.progress w)
      (Stopped offset (blocks * blockSize - offset) w.progress (w.Refusal path) w) := by
  rw [fillUp]
  by_cases more : offset < blocks * blockSize
  · obtain ⟨onward, inside, near⟩ := next_block pos more
    simp only [pos, more, and_self, dif_pos]
    generalize (offset / blockSize + 1) * blockSize = next at *
    have behind : next = offset + (List.replicate (next - offset) (0 : UInt8)).length := by
      rw [List.length_replicate]
      omega
    have all : List.replicate (next - offset) (0 : UInt8)
        ++ List.replicate (blocks * blockSize - next) 0
        = List.replicate (blocks * blockSize - offset) 0 := by
      rw [List.replicate_append_replicate]
      congr 1
      omega
    refine Ends.bind ((ends_putZeros path offset w (Nat.le_trans near small)).mono
      (fun _ _ => id) fun _ _ h => h.mono (Nat.zero_le _) id) ?_
    intro _ w' first
    refine (ends_fillUp path pos small next blocks w').mono ?_ ?_
    · intro _ w'' second
      rw [← all]
      exact first.progress ▸ first.trans second behind
    · intro e w'' stopped
      rw [← first.progress]
      refine (first.stopped stopped behind).mono ?_ first.refusal
      rw [List.length_replicate]
      omega
  · rw [dif_neg fun h => more h.2, Nat.sub_eq_zero_of_le (Nat.le_of_not_lt more)]
    exact Ends.pure (Wrote.refl offset w)
termination_by blocks * blockSize - offset

/-- The rest of a last block is filled with zeros, if there is a rest. -/
private theorem ends_tail (path : Path) {written stop : Nat} (w : Writer)
    (small : stop - written ≤ 4096) :
    Ends (if written < stop then putZeros path written (stop - written) else pure ()) w
      (fun _ => Wrote written (List.replicate (stop - written) 0) w.progress w)
      (Stopped written 0 w.progress (w.Refusal path) w) := by
  by_cases room : written < stop
  · rw [if_pos room]
    exact ends_putZeros path written w small
  · rw [if_neg room, Nat.sub_eq_zero_of_le (Nat.le_of_not_lt room)]
    exact Ends.pure (Wrote.refl written w)

/-! ## Tables -/

theorem ends_writeTable (t : PlannedTable) (w : Writer) (pos : 0 < w.blockSize)
    (small : w.blockSize ≤ 4096)
    (fits : t.records.length * Geometry.recordSize ≤ t.count.toNat * w.blockSize) :
    Ends (writeTable t) w
      (fun _ => Wrote (t.start.toNat * w.blockSize) (t.image w.blockSize)
        { w.progress.reach t.start t.count with tables := w.progress.tables + 1 } w)
      (Stopped (t.start.toNat * w.blockSize) (t.count.toNat * w.blockSize) w.progress
        (w.Refusal t.path) w) := by
  have size : (Record.encodeMany t.records).toBuffer.size
      = t.records.length * Geometry.recordSize := Record.length_encodeMany _
  have stop : t.start.toNat * w.blockSize + t.count.toNat * w.blockSize
      = (t.start.toNat + t.count.toNat) * w.blockSize := (Nat.add_mul ..).symm
  refine Ends.get ?_
  simp only [Geometry.byteRange]
  refine Ends.bind (Q := fun _ => (w = ·)) (Ends.require (decide_eq_true (by omega)) rfl) ?_
  rintro _ _ rfl
  have put := ends_put t.path (t.start.toNat * w.blockSize)
    (.ofBuffer (Record.encodeMany t.records).toBuffer) w
  rw [Blob.toList_ofBuffer, Bytes.ofBuffer_toBuffer] at put
  refine Ends.bind (put.mono (fun _ _ => id) fun _ _ h => h.mono (Nat.zero_le _) id) ?_
  intro _ w₁ first
  rw [stop]
  have padding := ends_fillUp t.path pos small
    (t.start.toNat * w.blockSize + (Record.encodeMany t.records).toBuffer.size)
    (t.start.toNat + t.count.toNat) w₁
  refine Ends.bind (padding.mono (fun _ _ => id) fun e w₂ stopped => ?_) ?_
  · rw [← first.progress]
    refine (first.stopped stopped rfl).mono ?_ first.refusal
    change (Record.encodeMany t.records).toBuffer.size + _ ≤ _
    omega
  · intro _ w₂ second
    have whole := first.trans second rfl
    have image : Record.encodeMany t.records ++ List.replicate
        ((t.start.toNat + t.count.toNat) * w.blockSize - (t.start.toNat * w.blockSize
          + (Record.encodeMany t.records).toBuffer.size)) 0 = t.image w.blockSize := by
      rw [PlannedTable.image, Bytes.padTo, ← stop, Nat.add_sub_add_left]
      rfl
    rw [image] at whole
    refine Ends.modify ?_
    rw [whole.progress, first.progress]
    exact whole.counted _

/-! ## Files -/

/-- Collecting gives the bytes ahead and changes nothing. It fails only where a source fails and
fewer bytes than wanted are ahead. -/
theorem ends_collect (path : Path) (r : Reader) (want : Nat) (w : Writer) :
    Ends (collect path r want) w
      (fun found w' => found.1.toList = r.ahead.take want ∧ found.2.ahead = r.ahead.drop want
        ∧ found.2.failure = r.failure ∧ (r.failure = none ∨ want ≤ r.ahead.length) ∧ w = w')
      (fun e w' => (∃ cause, e = .error (.unreadableSource path cause))
        ∧ r.failure ≠ none ∧ r.ahead.length < want ∧ w = w') := by
  unfold collect
  cases found : r.collect want with
  | ok found =>
    obtain ⟨taken, left, same, enough⟩ := Reader.collect_eq_ok found
    exact Ends.pure ⟨taken, left, same, enough, rfl⟩
  | error cause =>
    obtain ⟨failing, short⟩ := Reader.collect_eq_error found
    exact Ends.refuse ⟨⟨cause, rfl⟩, by rw [failing]; exact nofun, short, rfl⟩

/-- Copying puts as many bytes as planned, and leaves the others ahead. It stops only where a call
is refused or fewer bytes are ahead. -/
theorem ends_copy (path : Path) (r : Reader) (offset remaining : Nat) (w : Writer) :
    Ends (copy path r offset remaining) w
      (fun r' w' => r'.ahead = r.ahead.drop remaining ∧ r'.failure = r.failure
        ∧ remaining ≤ r.ahead.length ∧ Wrote offset (r.ahead.take remaining) w.progress w w')
      (Stopped offset remaining w.progress
        (fun e => w.Refusal path e ∨ r.ahead.length < remaining ∧ e.Unreadable path) w) := by
  rw [copy]
  by_cases none : remaining = 0
  · simp only [none, dif_pos]
    exact Ends.pure ⟨rfl, rfl, Nat.zero_le _, Wrote.refl offset w⟩
  · rw [dif_neg none]
    generalize chunk : min remaining transferSize = want
    have part : 0 < want ∧ want ≤ remaining := by
      simp only [transferSize] at chunk
      omega
    refine Ends.bind ((ends_collect path r want w).mono (fun _ _ => id) ?_) ?_
    · rintro e _ ⟨⟨cause, rfl⟩, _, short, rfl⟩
      exact .at_once (.inr ⟨Nat.lt_of_lt_of_le short part.2, cause, rfl⟩)
    · rintro ⟨bytes, rest⟩ _ ⟨taken, left, same, enough, rfl⟩
      have size : bytes.size = min want r.ahead.length := by
        rw [← Blob.length_toList, taken, List.length_take]
      simp only
      by_cases short : bytes.size < want
      · rw [if_pos short]
        refine Ends.bind (Q := fun _ _ => False) (Ends.refuse (.at_once (.inr ⟨?_, _, rfl⟩))) ?_
        · omega
        · exact fun _ _ => False.elim
      · rw [if_neg short]
        have full : want ≤ r.ahead.length := by omega
        have length : (r.ahead.take want).length = want := by
          rw [List.length_take, Nat.min_eq_left full]
        have all : r.ahead.take want ++ rest.ahead.take (remaining - want)
            = r.ahead.take remaining := by
          rw [left, ← List.take_add, Nat.add_sub_cancel' part.2]
        have put := ends_put path offset bytes w
        rw [taken] at put
        refine Ends.bind (put.mono (fun _ _ => id) fun e w' h => h.mono (Nat.zero_le _) .inl) ?_
        intro _ w' first
        refine (ends_copy path rest (offset + want) (remaining - want) w').mono ?_ ?_
        · rintro r' w'' ⟨ahead, failure, more, second⟩
          rw [left, List.length_drop] at more
          refine ⟨?_, failure.trans same, by omega, ?_⟩
          · rw [ahead, left, List.drop_drop, Nat.add_sub_cancel' part.2]
          · rw [← all]
            exact first.progress ▸ first.trans second (by rw [length])
        · intro e w'' stopped
          rw [← first.progress]
          refine (first.stopped stopped (by rw [length])).mono (by rw [length]; omega) ?_
          rintro _ (refused | ⟨fewer, unreadable⟩)
          · exact .inl (first.refusal refused)
          · rw [left, List.length_drop] at fewer
            exact .inr ⟨by omega, unreadable⟩
termination_by remaining

/-- Behind the planned bytes a source has to end: a run goes on only where it does. -/
private theorem ends_ended (path : Path) (r : Reader) (w : Writer) {next : Writing Unit}
    {Q : Unit → Writer → Prop} {E : Fault RunError → Writer → Prop}
    (stops : ∀ e, ¬ r.Holds 0 → e.Unreadable path → E (.error e) w)
    (goes : r.Holds 0 → Ends next w Q E) :
    Ends (do
      let (extra, _) ← collect path r 1
      if extra.size ≠ 0 then refuse (changedSize path)
      next) w Q E := by
  refine Ends.bind ((ends_collect path r 1 w).mono (fun _ _ => id) ?_) ?_
  · rintro e _ ⟨⟨cause, rfl⟩, failing, _, rfl⟩
    exact stops _ (fun ended => failing ended.1) ⟨cause, rfl⟩
  · rintro ⟨extra, _⟩ _ ⟨taken, _, _, ended, rfl⟩
    have size : extra.size = min 1 r.ahead.length := by
      rw [← Blob.length_toList, taken, List.length_take]
    simp only
    by_cases more : extra.size ≠ 0
    · rw [if_pos more]
      refine Ends.bind (Q := fun _ _ => False) (Ends.refuse (stops _ ?_ ⟨_, rfl⟩))
        fun _ _ => False.elim
      intro none
      rw [none.2] at size
      exact more size
    · rw [if_neg more]
      exact goes ⟨ended.resolve_right (by omega), by omega⟩

/-- A reader that hands out exactly the planned bytes fills the blocks of a file. It stops only
where a call is refused or the reader has other bytes. -/
theorem ends_copyWhole (r : Reader) (f : PlannedFile) (w : Writer) (pos : 0 < w.blockSize)
    (small : w.blockSize ≤ 4096)
    (count : f.count.toNat = Geometry.blocksFor f.size.toNat w.blockSize) :
    Ends (copyWhole r f) w
      (fun _ w' => r.Holds f.size.toNat ∧ Wrote (f.start.toNat * w.blockSize)
        (Bytes.padTo (f.count.toNat * w.blockSize) r.ahead) w.progress w w')
      (Stopped (f.start.toNat * w.blockSize) (f.count.toNat * w.blockSize) w.progress
        (fun e => w.Refusal f.path e ∨ ¬ r.Holds f.size.toNat ∧ e.Unreadable f.path) w) := by
  have room : f.size.toNat ≤ f.count.toNat * w.blockSize := by
    rw [count]
    exact Geometry.le_blocksFor_mul pos
  have last : f.count.toNat * w.blockSize < f.size.toNat + w.blockSize := by
    rw [count]
    exact Geometry.blocksFor_mul_lt pos
  refine Ends.get ?_
  simp only [Geometry.byteRange]
  refine Ends.bind ((ends_copy f.path r _ f.size.toNat w).mono (fun _ _ => id) ?_) ?_
  · intro e w' stopped
    refine stopped.mono room ?_
    rintro _ (refused | ⟨short, unreadable⟩)
    · exact .inl refused
    · refine .inr ⟨fun whole => ?_, unreadable⟩
      rw [whole.2] at short
      exact Nat.lt_irrefl _ short
  · rintro rest w₁ ⟨left, same, enough, copied⟩
    have length : (r.ahead.take f.size.toNat).length = f.size.toNat := by
      rw [List.length_take, Nat.min_eq_left enough]
    refine ends_ended f.path rest w₁ (fun e more unreadable => ?_) fun ended => ?_
    · refine ⟨⟨e, rfl, .inr ⟨fun whole => more ?_, unreadable⟩⟩, _, by rwa [length], copied⟩
      exact (Reader.holds_iff_of_drop left same enough).1 whole
    · have whole := (Reader.holds_iff_of_drop left same enough).2 ended
      have all : r.ahead.take f.size.toNat = r.ahead :=
        List.take_of_length_le (Nat.le_of_eq whole.2)
      rw [all] at copied
      refine Ends.bind (Q := fun _ => (w₁ = ·)) (Ends.require (decide_eq_true ?_) rfl) ?_
      · exact Nat.add_le_add_left room _
      rintro _ _ rfl
      have padded : r.ahead ++ List.replicate (f.start.toNat * w.blockSize
          + f.count.toNat * w.blockSize - (f.start.toNat * w.blockSize + f.size.toNat)) 0
          = Bytes.padTo (f.count.toNat * w.blockSize) r.ahead := by
        rw [Bytes.padTo, whole.2, Nat.add_sub_add_left]
      have behind : f.start.toNat * w.blockSize + f.size.toNat
          = f.start.toNat * w.blockSize + r.ahead.length := by rw [whole.2]
      refine (ends_tail f.path w₁ (by omega)).mono ?_ ?_
      · intro _ w₂ zeros
        rw [← padded]
        exact ⟨whole, copied.progress ▸ copied.trans zeros behind⟩
      · intro e w₂ stopped
        rw [← copied.progress]
        refine (copied.stopped stopped behind).mono ?_ fun refused => ?_
        · rw [whole.2]
          exact room
        · exact .inl (copied.refusal refused)

/-- The content of a file has been read to its end and fills its blocks. -/
structure Filed (sources : Sources) (f : PlannedFile) (progress : Progress) (w w' : Writer) :
    Prop where
  holds : f.content.Holds sources f.size.toNat
  wrote : Wrote (f.start.toNat * w.blockSize) (f.image w.blockSize sources) progress w w'

/-- A part of a file has been put at most, because a call was refused or the content of the file is
not the planned one. -/
abbrev Unfiled (sources : Sources) (f : PlannedFile) (w : Writer) :
    Fault RunError → Writer → Prop :=
  Stopped (f.start.toNat * w.blockSize) (f.count.toNat * w.blockSize) w.progress
    (fun e => w.Refusal f.path e ∨ ¬ f.content.Holds sources f.size.toNat ∧ e.Unreadable f.path) w

/-- A content that was found is copied, and then counts. -/
private theorem ends_found {sources : Sources} {f : PlannedFile} {w : Writer} {source : Source}
    (found : f.content.source sources = .ok source) (pos : 0 < w.blockSize)
    (small : w.blockSize ≤ 4096)
    (count : f.count.toNat = Geometry.blocksFor f.size.toNat w.blockSize) :
    Ends (do
        copyWhole { source with } f
        modify fun w =>
          { w with progress := { w.progress.reach f.start f.count with
              files := w.progress.files + 1 } }) w
      (fun _ => Filed sources f
        { w.progress.reach f.start f.count with files := w.progress.files + 1 } w)
      (Unfiled sources f w) := by
  have image : f.image w.blockSize sources = Bytes.padTo (f.count.toNat * w.blockSize)
      (Reader.ahead { source with }) := by
    simp only [PlannedFile.image, Content.bytes, found]
    rfl
  have copied := ends_copyWhole { source with } f w pos small count
  rw [← Content.holds_iff found, ← image] at copied
  refine Ends.bind copied ?_
  rintro _ w' ⟨holds, wrote⟩
  refine Ends.modify ⟨holds, ?_⟩
  rw [wrote.progress]
  exact wrote.counted _

/-- A file of planned bytes fills its blocks. It stops only where a call is refused or its content
does not have these bytes. -/
theorem ends_writeFile (sources : Sources) (f : PlannedFile) (w : Writer) (pos : 0 < w.blockSize)
    (small : w.blockSize ≤ 4096)
    (count : f.count.toNat = Geometry.blocksFor f.size.toNat w.blockSize) :
    Ends (writeFile sources f) w
      (fun _ => Filed sources f
        { w.progress.reach f.start f.count with files := w.progress.files + 1 } w)
      (Unfiled sources f w) := by
  unfold writeFile
  cases content : f.content with
  | inline bytes =>
    have found : f.content.source sources = .ok { content := .ofBuffer bytes } := by
      rw [content]
      rfl
    by_cases other : bytes.size ≠ f.size.toNat
    · have lacks : ¬ f.content.Holds sources f.size.toNat := by
        rintro ⟨source, is, _, size⟩
        obtain rfl := Except.ok.inj (found.symm.trans is)
        exact other size
      simp only [if_pos other]
      exact Ends.bind (Q := fun _ _ => False)
        (Ends.refuse (.at_once (.inr ⟨lacks, _, rfl⟩))) fun _ _ => False.elim
    · simp only [if_neg other]
      exact ends_found found pos small count
  | host path =>
    have same : f.content.source sources = sources path := by
      rw [content]
      rfl
    cases given : sources path with
    | error e =>
      have lacks : ¬ f.content.Holds sources f.size.toNat := by
        rintro ⟨source, is, _⟩
        rw [same, given] at is
        cases is
      simp only [given]
      exact Ends.bind (Q := fun _ _ => False)
        (Ends.refuse (.at_once (.inr ⟨lacks, _, rfl⟩))) fun _ _ => False.elim
    | ok source =>
      simp only [given]
      exact ends_found (same.trans given) pos small count

end Writer

end FlatImage
