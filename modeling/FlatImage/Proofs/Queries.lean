import FlatImage.Proofs.Header

/-!
# What an image answers

Whoever opens an image may ask it for any blocks, any table, and whatever a record leads to, be the
record from the image or not. Where what was asked for lies in its region, the answer is the bytes
that stand there, and everywhere else it is an error. All regions are compared without wrap-around
here: none of the sums that stay in 32 bits lets anything else through, and none of the slices that
an answer is cut from lies outside the image.
-/

namespace FlatImage

namespace Geometry

/-- Where a record fits into a block, a table has no more blocks than records, but one. -/
theorem tableBlocks_le {entries blockSize : Nat} (wide : recordSize ≤ blockSize) :
    tableBlocks entries blockSize ≤ max 1 entries := by
  have pos : 0 < blockSize := Nat.lt_of_lt_of_le (by decide) wide
  have less : blocksFor (entries * recordSize) blockSize * blockSize
      < entries * recordSize + blockSize := blocksFor_mul_lt pos
  have grow : entries * recordSize ≤ entries * blockSize := Nat.mul_le_mul_left _ wide
  have few : blocksFor (entries * recordSize) blockSize * blockSize
      < (entries + 1) * blockSize := by
    rw [Nat.add_mul]
    omega
  have few := Nat.lt_of_mul_lt_mul_right few
  unfold tableBlocks
  omega

theorem tableBlocks_lt {blockSize : Nat} (wide : recordSize ≤ blockSize) (entries : UInt32) :
    tableBlocks entries.toNat blockSize < UInt32.size := by
  have most : tableBlocks entries.toNat blockSize ≤ max 1 entries.toNat := tableBlocks_le wide
  have limit := entries.toNat_lt
  simp only [UInt32.size]
  omega

/-- A size that is not zero is the one that the first four shifts stand for. -/
theorem toNat_of_ofShift?_of_pos {shift : UInt8} {size : UInt32}
    (shifted : ofShift? shift = some size) (pos : 0 < size.toNat) :
    shift ≤ 3 ∧ size.toNat = 512 * 2 ^ shift.toNat :=
  (toNat_of_ofShift? shifted).resolve_left (Nat.ne_of_gt pos)

/-- A record fits into a block of a size that is not zero. -/
theorem recordSize_le_of_ofShift? {shift : UInt8} {size : UInt32}
    (shifted : ofShift? shift = some size) (pos : 0 < size.toNat) : recordSize ≤ size.toNat := by
  rw [(toNat_of_ofShift?_of_pos shifted pos).2]
  exact Nat.le_trans (by decide) (Nat.le_mul_of_pos_right 512 (Nat.two_pow_pos _))

end Geometry

theorem Buffer.slice?_eq_some {buffer : ByteArray} {start stop : Nat} (ordered : start ≤ stop)
    (inside : stop ≤ buffer.size) : slice? buffer start stop = some (buffer.extract start stop) :=
  if_pos ⟨ordered, inside⟩

namespace Image

/-! ## Decided readings -/

/-- A reading gives a result where a condition holds, and reports an error where it does not. There
is no third way to end. -/
inductive Decided {α : Type} (holds : Prop) (result : α) : Reading α → Prop where
  | found (h : holds) : Decided holds result (.ok result)
  | refused (h : ¬ holds) (e : ImageError) : Decided holds result (Fault.fail e)

namespace Decided

variable {α β : Type} {holds holds' : Prop} {result : α} {result' : β} {m : Reading α}

theorem eq_ok (h : Decided holds result m) (met : holds) : m = .ok result := by
  cases h with
  | found h => rfl
  | refused h e => exact absurd met h

theorem of_ok (h : Decided holds result m) {a : α} (ok : m = .ok a) : holds ∧ a = result := by
  cases h with
  | found h => exact ⟨h, (Except.ok.inj ok).symm⟩
  | refused h e => cases ok

theorem ne_abort (h : Decided holds result m) : m ≠ .error .abort := by
  cases h <;> exact nofun

theorem of_iff (h : Decided holds result m) (same : holds ↔ holds') : Decided holds' result m := by
  cases h with
  | found h => exact .found (same.1 h)
  | refused h e => exact .refused (fun h' => h (same.2 h')) e

theorem always (result : α) : Decided True result (.ok result) := .found trivial

/-- A check in front of a reading is one condition more. -/
theorem guard {c : Prop} [Decidable c] {e : ImageError} (h : ¬ c → Decided holds result m) :
    Decided (¬ c ∧ holds) result (if c then Fault.fail e else m) := by
  by_cases bad : c
  · rw [if_pos bad]
    exact .refused (fun h => h.1 bad) e
  · rw [if_neg bad]
    exact (h bad).of_iff ⟨fun met => ⟨bad, met⟩, And.right⟩

/-- A reading that goes on from the result of another one has both conditions. -/
theorem bind {f : α → Reading β} (first : Decided holds result m)
    (next : holds → Decided holds' result' (f result)) :
    Decided (holds ∧ holds') result' (m >>= f) := by
  cases first with
  | found h => exact (next h).of_iff ⟨fun h' => ⟨h, h'⟩, And.right⟩
  | refused h e => exact .refused (fun h' => h h'.1) e

theorem bind_ok {f : α → Reading β} (first : Decided holds result m)
    (next : holds → f result = .ok result') : Decided holds result' (m >>= f) := by
  cases first with
  | found h =>
    rw [Fault.ok_bind, next h]
    exact .found h
  | refused h e => exact .refused h e

end Decided

/-! ## What was opened -/

/-- The header of an image agrees with its bytes, and a record fits into a block of it. -/
structure Valid (img : Image) : Prop extends Sound img where
  wide : Geometry.recordSize ≤ img.blockSize.toNat

/-- An image was opened from bytes. -/
structure Opened (bytes : ByteArray) (img : Image) : Prop extends Valid img where
  bytes_eq : img.bytes = bytes
  header : img.superblock.encode <+: Bytes.ofBuffer bytes
  blockSize : img.blockSize.toNat = 512 * 2 ^ img.superblock.blockShift.toNat

theorem pos_of_length {bytes : ByteArray} {sb : Superblock} {blockSize : Nat}
    (stands : sb.encode <+: Bytes.ofBuffer bytes)
    (length : bytes.size = sb.totalBlocks.toNat * blockSize) : 0 < blockSize := by
  have enough := stands.length_le
  rw [Superblock.length_encode, Buffer.length_ofBuffer, length] at enough
  exact Nat.pos_of_mul_pos_left (Nat.lt_of_lt_of_le (by decide) enough)

/-- Bytes that are opened start with a header whose regions fit, and the image has them and it. -/
theorem exists_header_of_ofBytes {bytes : ByteArray} {img : Image} (h : ofBytes bytes = .ok img) :
    ∃ sb blockSize, sb.encode <+: Bytes.ofBuffer bytes ∧ sb.blockSize? = some blockSize
      ∧ sb.Regions blockSize.toNat bytes.size ∧ img = ⟨bytes, sb, blockSize⟩ := by
  obtain ⟨sb, blockSize, stands, _, _, shifted, same⟩ | ⟨e, refused⟩ := ofHeader_or_refused bytes
  · rw [same] at h
    have regions := regions_of_ofHeader h
    have pos := pos_of_length stands regions.length
    have image := Except.ok.inj (h.symm.trans (ofHeader_of_regions pos regions))
    exact ⟨sb, blockSize, stands, shifted, regions, image⟩
  · cases h.symm.trans refused

theorem opened_of_ofBytes {bytes : ByteArray} {img : Image} (h : ofBytes bytes = .ok img) :
    img.Opened bytes := by
  obtain ⟨sb, blockSize, stands, shifted, regions, rfl⟩ := exists_header_of_ofBytes h
  have pos := pos_of_length stands regions.length
  exact {
    pos := pos
    data_le := regions.dataStart_le
    size := regions.length
    wide := Geometry.recordSize_le_of_ofShift? shifted pos
    bytes_eq := rfl
    header := stands
    blockSize := (Geometry.toNat_of_ofShift?_of_pos shifted pos).2 }

theorem regions_of_ofBytes {bytes : ByteArray} {img : Image} (h : ofBytes bytes = .ok img) :
    img.superblock.Regions img.blockSize.toNat bytes.size := by
  obtain ⟨sb, blockSize, _, _, regions, rfl⟩ := exists_header_of_ofBytes h
  exact regions

/-! ## Where answers are cut from -/

variable {img : Image}

/-- The bytes of so many blocks from a block on. -/
def span (img : Image) (start count : Nat) : ByteArray :=
  img.bytes.extract (start * img.blockSize.toNat) ((start + count) * img.blockSize.toNat)

/-- The first bytes of the blocks from a block on. -/
def head (img : Image) (start length : Nat) : ByteArray :=
  img.bytes.extract (start * img.blockSize.toNat) (start * img.blockSize.toNat + length)

/-- What comes after the first bytes of so many blocks. -/
def tail (img : Image) (start count length : Nat) : ByteArray :=
  img.bytes.extract (start * img.blockSize.toNat + length)
    ((start + count) * img.blockSize.toNat)

/-- Blocks are what they start with and what comes after it. -/
theorem head_append_tail {count length : Nat} (short : length ≤ count * img.blockSize.toNat)
    (start : Nat) : img.head start length ++ img.tail start count length
      = img.span start count := by
  have ordered := Nat.add_le_add_left short (start * img.blockSize.toNat)
  rw [← Nat.add_mul] at ordered
  rw [head, tail, span, ByteArray.extract_append_extract, Nat.min_eq_left (Nat.le_add_right ..),
    Nat.max_eq_right ordered]

namespace Sound

variable {start count length : Nat}

theorem size_span (sound : img.Sound)
    (inside : start + count ≤ img.superblock.totalBlocks.toNat) :
    (img.span start count).size = count * img.blockSize.toNat := by
  have whole := Nat.mul_le_mul_right img.blockSize.toNat inside
  rw [← sound.size] at whole
  rw [span, ByteArray.size_extract, Nat.min_eq_left whole, Nat.add_mul, Nat.add_sub_cancel_left]

theorem slice?_head (sound : img.Sound)
    (inside : start + count ≤ img.superblock.totalBlocks.toNat)
    (short : length ≤ count * img.blockSize.toNat) :
    Buffer.slice? (img.span start count) 0 length = some (img.head start length) := by
  rw [Buffer.slice?_eq_some (Nat.zero_le _) (by rwa [sound.size_span inside]), span, head,
    ByteArray.extract_extract, Nat.add_zero, Nat.min_eq_left]
  rw [Nat.add_mul]
  exact Nat.add_le_add_left short _

theorem slice?_tail (sound : img.Sound)
    (inside : start + count ≤ img.superblock.totalBlocks.toNat)
    (short : length ≤ count * img.blockSize.toNat) :
    Buffer.slice? (img.span start count) length (img.span start count).size
      = some (img.tail start count length) := by
  rw [Buffer.slice?_eq_some (by rwa [sound.size_span inside]) (Nat.le_refl _),
    sound.size_span inside, span, tail, ByteArray.extract_extract, ← Nat.add_mul, Nat.min_self]

theorem size_head (sound : img.Sound)
    (inside : start + count ≤ img.superblock.totalBlocks.toNat)
    (short : length ≤ count * img.blockSize.toNat) : (img.head start length).size = length := by
  have whole := Nat.mul_le_mul_right img.blockSize.toNat inside
  rw [← sound.size, Nat.add_mul] at whole
  rw [head, ByteArray.size_extract]
  omega

end Sound

/-! ## What an image is asked for -/

/-- A table lies between the superblock and the content. -/
structure TableInside (img : Image) (start entries : Nat) : Prop where
  behind : 1 ≤ start
  before : start + Geometry.tableBlocks entries img.blockSize.toNat
    ≤ img.superblock.dataStart.toNat

/-- What a record has to say to lead to a directory. -/
structure DirectoryAt (img : Image) (r : Record) : Prop where
  text : Utf8.valid r.name
  kind : r.kind = Record.directoryKind
  whole : r.size.toNat % Geometry.recordSize = 0
  count : r.count.toNat
    = Geometry.tableBlocks (r.size.toNat / Geometry.recordSize) img.blockSize.toNat
  table : img.TableInside r.start.toNat (r.size.toNat / Geometry.recordSize)

/-- What a record has to say to lead to the content of a file. -/
structure FileAt (img : Image) (r : Record) : Prop where
  text : Utf8.valid r.name
  kind : r.kind = Record.fileKind
  count : r.count.toNat = Geometry.blocksFor r.size.toNat img.blockSize.toNat
  inside : 0 < r.size.toNat → img.superblock.dataStart.toNat ≤ r.start.toNat
    ∧ r.start.toNat + r.count.toNat ≤ img.superblock.totalBlocks.toNat

theorem FileAt.short {r : Record} (file : img.FileAt r) (sound : img.Sound) :
    r.size.toNat ≤ r.count.toNat * img.blockSize.toNat := by
  rw [file.count]
  exact Geometry.le_blocksFor_mul sound.pos

/-! ## Single queries -/

/-- Blocks are found where they end within the image. -/
theorem decided_blocks (sound : img.Sound) (start count : UInt32) :
    Decided (start.toNat + count.toNat ≤ img.superblock.totalBlocks.toNat)
      (img.span start.toNat count.toNat) (img.blocks start count) := by
  have limit := img.superblock.totalBlocks.toNat_lt
  simp only [blocks]
  by_cases inside : start.toNat + count.toNat ≤ img.superblock.totalBlocks.toNat
  · have whole := Nat.mul_le_mul_right img.blockSize.toNat inside
    rw [← sound.size] at whole
    rw [if_neg (by simp only [UInt32.size]; omega),
      Buffer.slice?_eq_some (Nat.mul_le_mul_right _ (Nat.le_add_right ..)) whole]
    exact .found inside
  · rw [if_pos (by omega)]
    exact .refused inside _

theorem decided_table (valid : img.Valid) (start entries : UInt32) :
    Decided (img.TableInside start.toNat entries.toNat)
      (Record.decodeMany entries.toNat
        (Bytes.ofBuffer (img.head start.toNat (entries.toNat * Geometry.recordSize))))
      (img.table start entries) := by
  have few := Geometry.tableBlocks_lt valid.wide entries
  have fits : entries.toNat * Geometry.recordSize
      ≤ Geometry.tableBlocks entries.toNat img.blockSize.toNat * img.blockSize.toNat :=
    Geometry.le_tableBlocks_mul valid.pos
  have region : img.TableInside start.toNat entries.toNat ↔ 1 ≤ start.toNat
      ∧ start.toNat + Geometry.tableBlocks entries.toNat img.blockSize.toNat
        ≤ img.superblock.dataStart.toNat :=
    ⟨fun h => ⟨h.behind, h.before⟩, fun h => ⟨h.1, h.2⟩⟩
  simp only [table, decide_eq_true few, Fault.require_true, Fault.ok_bind]
  generalize Geometry.tableBlocks entries.toNat img.blockSize.toNat = needed at *
  have count : (UInt32.ofNat needed).toNat = needed := UInt32.toNat_ofNat_of_lt' few
  have capacity : entries.toNat ≤ Geometry.tableCapacity needed img.blockSize.toNat :=
    (Nat.le_div_iff_mul_le (by decide)).2 fits
  refine (Decided.guard fun _ => (decided_blocks valid.toSound _ _).bind_ok
    fun inside => ?_).of_iff ?_
  · rw [valid.slice?_head inside (by rwa [count])]
    rfl
  · -- The sum is cut off where it leaves 32 bits, but no image has so many blocks.
    have limit := img.superblock.totalBlocks.toNat_lt
    have inside := valid.data_le
    have zero : start = 0 ↔ start.toNat = 0 := UInt32.toNat_inj.symm
    simp only [region, zero, count, UInt32.size] at few ⊢
    omega

theorem decided_name (r : Record) :
    Decided (Utf8.valid r.name ∧ (r.kind = Record.directoryKind ∨ r.kind = Record.fileKind)) r.name
      (name r) := by
  refine (Decided.guard fun _ => Decided.guard fun _ => Decided.always _).of_iff ?_
  simp [Record.isDirectory, Record.isFile, or_iff_not_imp_left]

theorem decided_directory (valid : img.Valid) (r : Record) :
    Decided (img.DirectoryAt r)
      (Record.decodeMany (r.size.toNat / Geometry.recordSize)
        (Bytes.ofBuffer (img.head r.start.toNat
          (r.size.toNat / Geometry.recordSize * Geometry.recordSize))))
      (img.directory r) := by
  have entries : (UInt32.ofNat (r.size.toNat / Geometry.recordSize)).toNat
      = r.size.toNat / Geometry.recordSize :=
    UInt32.toNat_ofNat_of_lt' (Nat.lt_of_le_of_lt (Nat.div_le_self ..) r.size.toNat_lt)
  have table := decided_table valid r.start (UInt32.ofNat (r.size.toNat / Geometry.recordSize))
  rw [entries] at table
  unfold directory
  refine ((decided_name r).bind fun _ => Decided.guard fun _ => Decided.guard fun _ =>
    table).of_iff ?_
  simp only [Record.isDirectory, Bool.not_eq_true', beq_eq_false_iff_ne, ne_eq, not_or, not_not]
  constructor
  · rintro ⟨⟨text, _⟩, ⟨kind, whole⟩, count, table⟩
    exact ⟨text, kind, whole, count, table⟩
  · rintro ⟨text, kind, whole, count, table⟩
    exact ⟨⟨text, .inl kind⟩, ⟨kind, whole⟩, count, table⟩

/-- The content of a file is found where its record says so, and tells the truth about its
blocks. -/
theorem decided_fileData (sound : img.Sound) (r : Record) :
    Decided (img.FileAt r) (img.head r.start.toNat r.size.toNat) (img.fileData r) := by
  unfold fileData
  by_cases empty : r.size = 0
  · have none : r.size.toNat = 0 := UInt32.toNat_inj.2 empty
    have nothing : img.head r.start.toNat r.size.toNat = ByteArray.empty := by
      rw [head, none, Nat.add_zero, ByteArray.extract_same]
    rw [nothing]
    simp only [if_pos empty]
    refine ((decided_name r).bind fun _ => Decided.guard fun _ => Decided.always _).of_iff ?_
    simp only [Record.isFile, Bool.not_eq_true', beq_eq_false_iff_ne, ne_eq, not_or, not_not]
    constructor
    · rintro ⟨⟨text, _⟩, ⟨kind, count⟩, _⟩
      exact ⟨text, kind, count, fun some => absurd none (Nat.ne_of_gt some)⟩
    · rintro ⟨text, kind, count, _⟩
      exact ⟨⟨text, .inr kind⟩, ⟨kind, count⟩, trivial⟩
  · have some : 0 < r.size.toNat := Nat.pos_of_ne_zero fun none => empty (UInt32.toNat_inj.1 none)
    simp only [if_neg empty]
    refine ((decided_name r).bind fun _ => Decided.guard fun sane => Decided.guard fun _ =>
      (decided_blocks sound _ _).bind_ok fun inside => ?_).of_iff ?_
    · have count := Decidable.not_not.1 (not_or.1 sane).2
      rw [sound.slice?_head inside (by rw [count]; exact Geometry.le_blocksFor_mul sound.pos)]
      rfl
    · simp only [Record.isFile, Bool.not_eq_true', beq_eq_false_iff_ne, ne_eq, not_or, not_not,
        UInt32.not_lt, UInt32.le_iff_toNat_le]
      constructor
      · rintro ⟨⟨text, _⟩, ⟨kind, count⟩, behind, inside⟩
        exact ⟨text, kind, count, fun _ => ⟨behind, inside⟩⟩
      · rintro ⟨text, kind, count, region⟩
        exact ⟨⟨text, .inr kind⟩, ⟨kind, count⟩, region some⟩

theorem decided_fileTail (sound : img.Sound) (r : Record) :
    Decided (img.FileAt r) (img.tail r.start.toNat r.count.toNat r.size.toNat)
      (img.fileTail r) := by
  unfold fileTail
  refine (decided_fileData sound r).bind_ok fun file => ?_
  have short := file.short sound
  by_cases empty : r.size.toNat = 0
  · have none : r.count.toNat = 0 := by rw [file.count, empty, Geometry.blocksFor_zero]
    rw [head, tail, empty, none, Nat.add_zero, Nat.add_zero, ByteArray.extract_same]
    rfl
  · obtain ⟨_, inside⟩ := file.inside (Nat.pos_of_ne_zero empty)
    rw [sound.size_head inside short, if_neg empty, (decided_blocks sound _ _).eq_ok inside,
      Fault.ok_bind, sound.slice?_tail inside short]
    rfl

/-! ## All queries -/

/-- What an image answers to every query. Blocks, tables and contents are the bytes that stand where
they are said to be; tables stand before the first block of the contents, and contents do not. -/
structure Answers (img : Image) : Prop where
  name (r : Record) :
    Decided (Utf8.valid r.name ∧ (r.kind = Record.directoryKind ∨ r.kind = Record.fileKind)) r.name
      (name r)
  blocks (start count : UInt32) :
    Decided (start.toNat + count.toNat ≤ img.superblock.totalBlocks.toNat)
      (img.span start.toNat count.toNat) (img.blocks start count)
  table (start entries : UInt32) :
    Decided (img.TableInside start.toNat entries.toNat)
      (Record.decodeMany entries.toNat
        (Bytes.ofBuffer (img.head start.toNat (entries.toNat * Geometry.recordSize))))
      (img.table start entries)
  directory (r : Record) :
    Decided (img.DirectoryAt r)
      (Record.decodeMany (r.size.toNat / Geometry.recordSize)
        (Bytes.ofBuffer (img.head r.start.toNat
          (r.size.toNat / Geometry.recordSize * Geometry.recordSize))))
      (img.directory r)
  fileData (r : Record) :
    Decided (img.FileAt r) (img.head r.start.toNat r.size.toNat) (img.fileData r)
  fileTail (r : Record) :
    Decided (img.FileAt r) (img.tail r.start.toNat r.count.toNat r.size.toNat) (img.fileTail r)
  joined {r : Record} {data tail : ByteArray} (some : 0 < r.size.toNat)
    (content : img.fileData r = .ok data) (rest : img.fileTail r = .ok tail) :
    img.blocks r.start r.count = .ok (data ++ tail)
  before {start entries : UInt32} {records : List Record}
    (found : img.table start entries = .ok records) :
    img.blockSize.toNat ≤ start.toNat * img.blockSize.toNat
      ∧ start.toNat * img.blockSize.toNat + entries.toNat * Geometry.recordSize
        ≤ img.superblock.dataStart.toNat * img.blockSize.toNat
  behind {r : Record} {data : ByteArray} (content : img.fileData r = .ok data)
    (some : 0 < r.size.toNat) :
    img.superblock.dataStart.toNat * img.blockSize.toNat ≤ r.start.toNat * img.blockSize.toNat
      ∧ r.start.toNat * img.blockSize.toNat + r.size.toNat ≤ img.bytes.size

/-- Whatever bytes an image was opened from, it answers every query like this. -/
theorem answers_of_ofBytes {bytes : ByteArray} {img : Image} (h : ofBytes bytes = .ok img) :
    img.Opened bytes ∧ img.Answers := by
  have opened := opened_of_ofBytes h
  have sound := opened.toSound
  refine ⟨opened, decided_name, decided_blocks sound, decided_table opened.toValid,
    decided_directory opened.toValid, decided_fileData sound, decided_fileTail sound, ?_, ?_, ?_⟩
  · intro r data tail some content rest
    obtain ⟨file, rfl⟩ := (decided_fileData sound r).of_ok content
    obtain ⟨_, rfl⟩ := (decided_fileTail sound r).of_ok rest
    rw [head_append_tail (file.short sound)]
    exact (decided_blocks sound _ _).eq_ok (file.inside some).2
  · intro start entries records found
    obtain ⟨region, _⟩ := (decided_table opened.toValid _ _).of_ok found
    have fits : entries.toNat * Geometry.recordSize
        ≤ Geometry.tableBlocks entries.toNat img.blockSize.toNat * img.blockSize.toNat :=
      Geometry.le_tableBlocks_mul sound.pos
    have last := Nat.mul_le_mul_right img.blockSize.toNat region.before
    rw [Nat.add_mul] at last
    exact ⟨Nat.le_mul_of_pos_left _ region.behind, by omega⟩
  · intro r data content some
    obtain ⟨file, _⟩ := (decided_fileData sound r).of_ok content
    obtain ⟨behind, inside⟩ := file.inside some
    have short := file.short sound
    have last := Nat.mul_le_mul_right img.blockSize.toNat inside
    rw [Nat.add_mul, ← sound.size] at last
    exact ⟨Nat.mul_le_mul_right _ behind, by omega⟩

end Image

/-- The superblock of an image without entries. -/
def Superblock.smallest : Superblock where
  magic := signature
  version := currentVersion
  blockShift := 0
  totalBlocks := 2
  rootTable := 1
  rootEntries := 0
  metaBlocks := 1
  dataStart := 2
  entryCount := 0
  reserved := Vector.replicate 30 0

/-- The superblock of an image of one file of one block. -/
def Superblock.single : Superblock :=
  { Superblock.smallest with totalBlocks := 3, rootEntries := 1, entryCount := 1 }

def Record.single : Record where
  kind := fileKind
  nameLength := 1
  reserved := 0
  size := 3
  start := 2
  count := 1
  parent := 1
  mtime := 0
  nameField := padName [0x61]

def singleBytes : Bytes :=
  Bytes.padTo 512 Superblock.single.encode
    ++ (Bytes.padTo 512 (Record.encodeMany [Record.single]) ++ Bytes.padTo 512 [1, 2, 3])

namespace Image

def single : Image := ⟨singleBytes.toBuffer, .single, 512⟩

theorem at_single : singleBytes.At 512 (Record.encodeMany [Record.single])
    ∧ singleBytes.At 1024 [1, 2, 3] ∧ singleBytes.length = 1536 := by
  have header : (Bytes.padTo 512 Superblock.single.encode).length = 512 :=
    Bytes.length_padTo_of_le (by rw [Superblock.length_encode]; decide)
  have table : (Bytes.padTo 512 (Record.encodeMany [Record.single])).length = 512 :=
    Bytes.length_padTo_of_le (by rw [Record.length_encodeMany]; decide)
  have content : (Bytes.padTo 512 [1, 2, 3]).length = 512 := Bytes.length_padTo_of_le (by decide)
  have all : singleBytes.At 0 singleBytes := List.prefix_rfl
  have behind := all.right
  rw [header] at behind
  have last := behind.right
  rw [table] at last
  refine ⟨behind.left.of_padTo, last.of_padTo, ?_⟩
  rw [singleBytes, List.length_append, List.length_append, header, table, content]

theorem ofBytes_single : ofBytes singleBytes.toBuffer = .ok single := by
  have all : singleBytes.At 0 singleBytes := List.prefix_rfl
  have shifted : Superblock.single.blockSize? = some 512 := by decide
  exact ofBytes_of_regions all.left.of_padTo rfl rfl shifted (by decide)
    ⟨at_single.2.2, rfl, by decide, by decide, by decide⟩

theorem root_single : single.root = .ok [Record.single] :=
  table_of_at (opened_of_ofBytes ofBytes_single).toSound rfl (by decide) (by decide) at_single.1

theorem fileData_single : single.fileData .single = .ok ⟨#[1, 2, 3]⟩ := by
  have named : name .single = .ok [0x61] := name_of_padName rfl rfl rfl (.inr rfl)
  obtain ⟨data, read, bytes⟩ := fileData_of_at (opened_of_ofBytes ofBytes_single).toSound [1, 2, 3]
    named rfl rfl rfl fun _ => ⟨by decide, by decide, at_single.2.1⟩
  obtain rfl : data = ⟨#[1, 2, 3]⟩ := Buffer.ofBuffer_injective bytes
  exact read

/-- The image of one file is opened, and answers with the file's bytes and what follows them. -/
theorem answers_of_ofBytes_single : ∃ img tail,
    ofBytes singleBytes.toBuffer = .ok img ∧ img.Opened singleBytes.toBuffer ∧ img.Answers
      ∧ img.fileData Record.single = .ok ⟨#[1, 2, 3]⟩ ∧ img.fileTail Record.single = .ok tail
      ∧ img.blocks 2 1 = .ok (⟨#[1, 2, 3]⟩ ++ tail) := by
  obtain ⟨own, answers⟩ := answers_of_ofBytes ofBytes_single
  have file : single.FileAt .single := ⟨by decide, rfl, by decide, fun _ => by decide⟩
  obtain ⟨tail, rest⟩ : ∃ tail, single.fileTail .single = .ok tail :=
    ⟨_, (answers.fileTail .single).eq_ok file⟩
  have joined := answers.joined (by decide) fileData_single rest
  exact ⟨single, tail, ofBytes_single, own, answers, fileData_single, rest, joined⟩

end Image

end FlatImage
