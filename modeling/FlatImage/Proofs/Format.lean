import FlatImage.Proofs.Queries
import FlatImage.Proofs.Writing.Blocks

/-!
# The format, byte by byte

Where each field of a record and of the superblock stands is said once more here, as a table of
offsets that neither `encode` nor `decode` is defined by: every number has its bytes at fixed
places, eight bits in each, the highest first. The table determines the bytes, so writing and
reading are exactly what it says, and they undo each other.

A directory table is its records one after the other. What the writer puts into its blocks, and what
an opened image answers for a table, are the bytes and the records of such a sequence.
-/

namespace FlatImage

/-! ## Numbers -/

namespace BigEndian

variable {bytes : Bytes} {offset width n : Nat}

/-- A number has `width` bytes from an offset on, each of them eight of its bits. -/
def Shown (bytes : Bytes) (offset width n : Nat) : Prop :=
  ∀ i, i < width → bytes[offset + i]? = some (UInt8.ofNat (n >>> (8 * (width - 1 - i))))

theorem getElem?_encode (width n : Nat) {i : Nat} (inside : i < width) :
    (encode width n)[i]? = some (UInt8.ofNat (n >>> (8 * (width - 1 - i)))) := by
  induction width generalizing n with
  | zero => exact absurd inside (Nat.not_lt_zero i)
  | succ width ih =>
    rw [encode]
    by_cases last : i = width
    · subst last
      rw [List.getElem?_append_right (Nat.le_of_eq (length_encode ..)), length_encode,
        Nat.sub_self, Nat.add_sub_cancel, Nat.sub_self, Nat.mul_zero, Nat.shiftRight_zero]
      rfl
    · have before : i < width := by omega
      have shift : 8 * (width + 1 - 1 - i) = 8 + 8 * (width - 1 - i) := by omega
      have high : n / 256 = n >>> 8 := (Nat.shiftRight_eq_div_pow n 8).symm
      rw [List.getElem?_append_left (by rwa [length_encode]), ih (n / 256) before, shift, high,
        Nat.shiftRight_add]

/-- A number is shown where its bytes stand. -/
theorem shown_iff : Shown bytes offset width n
    ↔ (bytes.drop offset).take width = encode width n := by
  constructor
  · intro shown
    apply List.ext_getElem?
    intro i
    by_cases inside : i < width
    · rw [List.getElem?_take_of_lt inside, List.getElem?_drop, shown i inside,
        getElem?_encode width n inside]
    · rw [List.getElem?_eq_none (by rw [List.length_take]; omega),
        List.getElem?_eq_none (by rw [length_encode]; omega)]
  · intro stands i inside
    rw [← getElem?_encode width n inside, ← stands, List.getElem?_take_of_lt inside,
      List.getElem?_drop]

end BigEndian

open BigEndian (Shown shown_iff)

/-- A value is written as the sixty-four bytes that show it, and is read back from them. Every
sixty-four bytes are those of a value. -/
structure ExactCodec {α : Type} (encode : α → Bytes) (read? : Bytes → Option α)
    (Stored : Bytes → α → Prop) : Prop where
  layout (bytes : Bytes) (a : α) : encode a = bytes ↔ Stored bytes a
  read_back (a : α) : read? (encode a) = some a
  written_back (bytes : Bytes) (length : bytes.length = 64) :
    ∃ a, read? bytes = some a ∧ encode a = bytes

/-! ## Records -/

namespace Record

/-- Sixty-four bytes show a record. -/
structure Stored (bytes : Bytes) (r : Record) : Prop where
  length : bytes.length = 64
  kind : bytes[0]? = some r.kind
  nameLength : bytes[1]? = some r.nameLength
  reserved : Shown bytes 2 2 r.reserved.toNat
  size : Shown bytes 4 4 r.size.toNat
  start : Shown bytes 8 4 r.start.toNat
  count : Shown bytes 12 4 r.count.toNat
  parent : Shown bytes 16 4 r.parent.toNat
  mtime : Shown bytes 20 8 r.mtime.toNat
  name : bytes.drop 28 = r.nameField.toList

/-- The bytes of a record are those that show it. -/
theorem encode_eq_iff {bytes : Bytes} {r : Record} : r.encode = bytes ↔ Stored bytes r := by
  constructor
  · rintro rfl
    refine ⟨length_encode r, by simp [encode], by simp [encode], ?_, ?_, ?_, ?_, ?_, ?_, ?_⟩
    all_goals simp only [shown_iff, encode, List.append_assoc, List.cons_append, List.nil_append,
      List.drop_succ_cons, List.drop_zero, List.drop_append, BigEndian.length_encode,
      List.drop_eq_nil_of_le, Nat.reduceLeDiff, Nat.reduceSub, Nat.le_refl]
    all_goals exact List.take_left' (BigEndian.length_encode ..)
  · intro stored
    have head : bytes.take 2 = [r.kind, r.nameLength] := by
      rw [List.take_add_one, List.take_add_one, List.take_zero, stored.kind, stored.nameLength]
      rfl
    rw [encode, ← head, ← stored.name, ← shown_iff.1 stored.reserved, ← shown_iff.1 stored.size,
      ← shown_iff.1 stored.start, ← shown_iff.1 stored.count, ← shown_iff.1 stored.parent,
      ← shown_iff.1 stored.mtime]
    simp only [← List.take_add, Nat.reduceAdd, List.take_append_drop]

example (name : Vector UInt8 36) :
    (encode ⟨1, 2, 0x0304, 0x05060708, 0x090A0B0C, 0x0D0E0F10, 0x11121314, 0x15161718191A1B1C,
      name⟩).take 28 = (List.range' 1 28).map UInt8.ofNat := by cbv

theorem exactCodec : ExactCodec encode decode? Stored where
  layout _ _ := encode_eq_iff
  read_back r := by rw [decode?, if_pos (length_encode r), decode_encode]
  written_back bytes length := ⟨decode bytes, if_pos length, encode_decode length⟩

end Record

/-! ## The superblock -/

namespace Superblock

/-- Sixty-four bytes show a superblock. -/
structure Stored (bytes : Bytes) (sb : Superblock) : Prop where
  length : bytes.length = 64
  magic : bytes.take 8 = sb.magic.toList
  version : bytes[8]? = some sb.version
  blockShift : bytes[9]? = some sb.blockShift
  totalBlocks : Shown bytes 10 4 sb.totalBlocks.toNat
  rootTable : Shown bytes 14 4 sb.rootTable.toNat
  rootEntries : Shown bytes 18 4 sb.rootEntries.toNat
  metaBlocks : Shown bytes 22 4 sb.metaBlocks.toNat
  dataStart : Shown bytes 26 4 sb.dataStart.toNat
  entryCount : Shown bytes 30 4 sb.entryCount.toNat
  reserved : bytes.drop 34 = sb.reserved.toList

theorem encode_eq_iff {bytes : Bytes} {sb : Superblock} : sb.encode = bytes ↔ Stored bytes sb := by
  constructor
  · rintro rfl
    refine ⟨length_encode sb, by simp [encode], by simp [encode], by simp [encode], ?_, ?_, ?_, ?_,
      ?_, ?_, ?_⟩
    all_goals simp only [shown_iff, encode, List.append_assoc, List.cons_append, List.nil_append,
      List.drop_succ_cons, List.drop_zero, List.drop_append, BigEndian.length_encode,
      List.drop_eq_nil_of_le, Nat.reduceLeDiff, Nat.reduceSub, Nat.le_refl, Vector.length_toList]
    all_goals exact List.take_left' (BigEndian.length_encode ..)
  · intro stored
    have head : (bytes.drop 8).take 2 = [sb.version, sb.blockShift] := by
      rw [List.take_add_one, List.take_add_one, List.take_zero, List.getElem?_drop,
        List.getElem?_drop, stored.version, stored.blockShift]
      rfl
    rw [encode, ← stored.magic, ← head, ← stored.reserved, ← shown_iff.1 stored.totalBlocks,
      ← shown_iff.1 stored.rootTable, ← shown_iff.1 stored.rootEntries,
      ← shown_iff.1 stored.metaBlocks, ← shown_iff.1 stored.dataStart,
      ← shown_iff.1 stored.entryCount]
    simp only [← List.take_add, Nat.reduceAdd, List.take_append_drop]

/-- A superblock is read from the first sixty-four bytes. -/
theorem ofStart?_append {bytes : Bytes} (length : bytes.length = 64) (rest : Bytes) :
    ofStart? (bytes ++ rest) = some (decode bytes) := by
  have enough : Geometry.recordSize ≤ (bytes ++ rest).length := by
    rw [List.length_append, length]
    exact Nat.le_add_right ..
  rw [ofStart?, if_pos enough]
  exact congrArg (some ∘ decode) (List.take_left' length)

theorem exactCodec (rest : Bytes) :
    ExactCodec encode (fun bytes => ofStart? (bytes ++ rest)) Stored where
  layout _ _ := encode_eq_iff
  read_back sb := by rw [ofStart?_append (length_encode sb), decode_encode]
  written_back bytes length := ⟨decode bytes, ofStart?_append length rest, encode_decode length⟩

end Superblock

/-! ## Tables -/

namespace Record

theorem encodeMany_decodeMany {n : Nat} {bytes : Bytes} (length : bytes.length = n * 64) :
    encodeMany (decodeMany n bytes) = bytes := by
  induction n generalizing bytes with
  | zero =>
    rw [Nat.zero_mul, List.length_eq_zero_iff] at length
    rw [length]
    rfl
  | succ n ih =>
    have rest : (bytes.drop Geometry.recordSize).length = n * 64 := by
      rw [List.length_drop, Geometry.recordSize]
      omega
    have first : (bytes.take Geometry.recordSize).length = Geometry.recordSize := by
      rw [List.length_take, Geometry.recordSize]
      omega
    have others := ih rest
    rw [encodeMany] at others
    rw [decodeMany, encodeMany, List.flatMap_cons, encode_decode first, others,
      List.take_append_drop]

/-- The records of a table stand one after the other. -/
theorem take_drop_encodeMany {records : List Record} {i : Nat} {r : Record}
    (there : records[i]? = some r) : ((encodeMany records).drop (i * 64)).take 64 = r.encode := by
  induction records generalizing i with
  | nil => cases there
  | cons first rest ih =>
    have length : first.encode.length = 64 := length_encode first
    rw [encodeMany, List.flatMap_cons]
    cases i with
    | zero =>
      obtain rfl : first = r := Option.some.inj there
      rw [Nat.zero_mul, List.drop_zero, List.take_left' length]
    | succ i =>
      rw [Nat.succ_mul, Nat.add_comm, ← List.drop_drop, List.drop_left' length]
      exact ih there

/-- The bytes of a table are those that show a record in every sixty-four of them. -/
theorem encodeMany_eq_iff {records : List Record} {bytes : Bytes} :
    encodeMany records = bytes ↔ bytes.length = records.length * 64
      ∧ ∀ i r, records[i]? = some r → Stored ((bytes.drop (i * 64)).take 64) r := by
  constructor
  · rintro rfl
    exact ⟨length_encodeMany records,
      fun i r there => encode_eq_iff.1 (take_drop_encodeMany there).symm⟩
  · rintro ⟨length, each⟩
    induction records generalizing bytes with
    | nil =>
      rw [List.length_nil, Nat.zero_mul, List.length_eq_zero_iff] at length
      exact length.symm
    | cons r rest ih =>
      have first : r.encode = bytes.take 64 := encode_eq_iff.2 (each 0 r rfl)
      have short : (bytes.drop 64).length = rest.length * 64 := by
        rw [List.length_drop, length, List.length_cons, Nat.succ_mul, Nat.add_sub_cancel]
      have others : encodeMany rest = bytes.drop 64 := ih short fun i s there => by
        rw [List.drop_drop, Nat.add_comm, ← Nat.succ_mul]
        exact each (i + 1) s there
      rw [encodeMany] at others
      rw [encodeMany, List.flatMap_cons, first, others, List.take_append_drop]

end Record

namespace Image

variable {img : Image}

/-- A table is read as the records that stand one after the other where it lies. -/
theorem table_eq_ok_iff (valid : img.Valid) {start entries : UInt32} {records : List Record} :
    img.table start entries = .ok records
      ↔ img.TableInside start.toNat entries.toNat ∧ entries.toNat = records.length
        ∧ (Bytes.ofBuffer img.bytes).At (start.toNat * img.blockSize.toNat)
          (Record.encodeMany records) := by
  have sound := valid.toSound
  constructor
  · intro found
    obtain ⟨inside, rfl⟩ := (decided_table valid start entries).of_ok found
    have size : (img.head start.toNat (entries.toNat * Geometry.recordSize)).size
        = entries.toNat * Geometry.recordSize :=
      sound.size_head (Nat.le_trans inside.before sound.data_le)
        (Geometry.le_tableBlocks_mul sound.pos)
    refine ⟨inside, (Record.length_decodeMany ..).symm, ?_⟩
    rw [Record.encodeMany_decodeMany (by rw [Buffer.length_ofBuffer, size]; rfl), head,
      Buffer.ofBuffer_extract, List.drop_take]
    exact List.take_prefix ..
  · rintro ⟨inside, length, stands⟩
    exact table_of_at sound length inside.behind (length ▸ inside.before) stands

end Image

namespace Writer

variable {w w' : Writer} {t : PlannedTable}

theorem fits_of_run (run : (writeTable t).run.run w = (.ok (), w')) :
    t.records.length * Geometry.recordSize ≤ t.count.toNat * w.blockSize := by
  by_contra crowded
  have size : (Record.encodeMany t.records).toBuffer.size
      = t.records.length * Geometry.recordSize := Record.length_encodeMany _
  have stopped : Ends (writeTable t) w (fun _ _ => False) (fun _ _ => True) := by
    refine Ends.get ?_
    refine Ends.bind (Q := fun _ _ => False) ?_ fun _ _ no => no.elim
    have past : decide ((Record.encodeMany t.records).toBuffer.size
        ≤ (Geometry.byteRange t.start.toNat t.count.toNat w.blockSize).stop
          - (Geometry.byteRange t.start.toNat t.count.toNat w.blockSize).start) = false := by
      apply decide_eq_false
      simp only [Geometry.byteRange]
      omega
    rw [Writer.require, past]
    exact Ends.of_run_error rfl trivial
  exact stopped.of_ok run

/-- A table that was written stands in the destination, its records one after the other. -/
theorem at_of_run (pos : 0 < w.blockSize) (small : w.blockSize ≤ 4096)
    (run : (writeTable t).run.run w = (.ok (), w')) :
    w'.content.At (t.start.toNat * w.blockSize) (Record.encodeMany t.records) :=
  ((writesOnly_writeTable t pos small (fits_of_run run)).of_ok run).1.stands.of_padTo

/-- A destination that refuses nothing takes every table whose records fit. -/
theorem exists_run (pos : 0 < w.blockSize) (small : w.blockSize ≤ 4096)
    (fits : t.records.length * Geometry.recordSize ≤ t.count.toNat * w.blockSize)
    (accepting : w.output.refuses = fun _ _ => none) :
    ∃ w', (writeTable t).run.run w = (.ok (), w') := by
  obtain ⟨_, w', run, _⟩ := (ends_writeTable t w pos small fits).exists_ok fun e w' stopped => by
    obtain ⟨r, _, refused⟩ := stopped.cause
    exact not_refused accepting r ⟨_, refused⟩
  exact ⟨w', run⟩

end Writer

/-- Records and superblocks are written and read exactly as the format lays them out, whatever comes
after a superblock. A table is its records one after the other: read back record by record they are
the same, an opened image answers with a table just where they stand in it, and the writer puts
them there. -/
theorem codecs_exact :
    ExactCodec Record.encode Record.decode? Record.Stored
    ∧ (∀ rest, ExactCodec Superblock.encode (fun bytes => Superblock.ofStart? (bytes ++ rest))
      Superblock.Stored)
    ∧ (∀ (records : List Record) bytes, Record.encodeMany records = bytes
      ↔ bytes.length = records.length * 64
        ∧ ∀ i r, records[i]? = some r → Record.Stored ((bytes.drop (i * 64)).take 64) r)
    ∧ (∀ records : List Record,
      Record.decodeMany records.length (Record.encodeMany records) = records)
    ∧ (∀ n bytes, bytes.length = n * 64 →
      (Record.decodeMany n bytes).length = n
        ∧ Record.encodeMany (Record.decodeMany n bytes) = bytes)
    ∧ (∀ bytes img, Image.ofBytes bytes = .ok img → ∀ start entries records,
      img.table start entries = .ok records
        ↔ img.TableInside start.toNat entries.toNat ∧ entries.toNat = records.length
          ∧ (Bytes.ofBuffer bytes).At (start.toNat * img.blockSize.toNat)
            (Record.encodeMany records))
    ∧ ∀ (t : PlannedTable) (w w' : Writer), 0 < w.blockSize → w.blockSize ≤ 4096 →
      (Writer.writeTable t).run.run w = (.ok (), w') →
        w'.content.At (t.start.toNat * w.blockSize) (Record.encodeMany t.records) := by
  refine ⟨Record.exactCodec, Superblock.exactCodec, fun _ _ => Record.encodeMany_eq_iff,
    Record.decodeMany_encodeMany, fun n bytes length =>
      ⟨Record.length_decodeMany n bytes, Record.encodeMany_decodeMany length⟩, ?_,
    fun t w w' pos small run => Writer.at_of_run pos small run⟩
  intro bytes img found start entries records
  have opened := Image.opened_of_ofBytes found
  rw [← opened.bytes_eq]
  exact Image.table_eq_ok_iff opened.toValid

/-- The root table of an image without entries has no records, and the two records of a table are
written at its block. -/
theorem codecs_exact_sample : ∃ img w,
    Image.ofBytes (Bytes.padTo 1024 Superblock.smallest.encode).toBuffer = .ok img
      ∧ img.table 1 0 = .ok []
      ∧ (Writer.writeTable
          ⟨Layout.rootPath, 1, 1, Directory.sample.entries.records {} 1 ⟨2, 3⟩⟩).run.run
        ⟨512, .accepting (.hole 2048), .start⟩ = (.ok (), w)
      ∧ w.content.At 512 (Record.encodeMany (Directory.sample.entries.records {} 1 ⟨2, 3⟩)) := by
  obtain ⟨_, _, _, _, _, tables, writes⟩ := codecs_exact
  have length : (Bytes.padTo 1024 Superblock.smallest.encode).length = 1024 :=
    Bytes.length_padTo_of_le (by rw [Superblock.length_encode]; decide)
  have regions : Superblock.smallest.Regions 512
      (Bytes.padTo 1024 Superblock.smallest.encode).toBuffer.size :=
    ⟨length, rfl, by decide, by decide, by decide⟩
  have opened := Image.ofBytes_of_regions (List.prefix_append _ _) rfl rfl
    (by decide : Superblock.smallest.blockSize? = some 512) (by decide) regions
  have empty := (tables _ _ opened 1 0 []).2 ⟨⟨by decide, by decide⟩, rfl, List.nil_prefix⟩
  obtain ⟨w, run⟩ : ∃ w, (Writer.writeTable
      ⟨Layout.rootPath, 1, 1, Directory.sample.entries.records {} 1 ⟨2, 3⟩⟩).run.run
        ⟨512, .accepting (.hole 2048), .start⟩ = (.ok (), w) :=
    Writer.exists_run (by decide) (by decide) (by decide) rfl
  exact ⟨_, w, opened, empty, run, writes _ _ w (by decide) (by decide) run⟩

end FlatImage
