import FlatImage.Proofs.Insertion
import FlatImage.Proofs.RoundTrip

/-!
# One image for one tree

Two trees agree when they have the same names and kinds, the same bytes in their files and the same
modification times, as far as an image keeps these. Trees that agree compile to the same image:
their entries take the same blocks, and whatever is counted, recorded or copied on the way is the
same for both. Trees that do not agree never share an image, because an image is read back to all
that agreement compares.
-/

namespace FlatImage

/-! ## Agreement -/

mutual

/-- Directories with the same entries. Their own modification times are not compared. -/
def Directory.Agrees (o : Options) (sources sources' : Sources) : Directory → Directory → Prop
  | .mk _ entries, .mk _ entries' => entries.Agrees o sources sources' entries'

/-- Entries of the same names. Without a timestamp in the options they also have the same
modification times, where one before the epoch counts as the epoch. -/
def Entries.Agrees (o : Options) (sources sources' : Sources) : Entries → Entries → Prop
  | .nil, .nil => True
  | .cons name entry rest, .cons name' entry' rest' =>
    name = name' ∧ (o.timestamp = none → max entry.mtime.toInt 0 = max entry'.mtime.toInt 0)
      ∧ entry.Agrees o sources sources' entry' ∧ rest.Agrees o sources sources' rest'
  | .nil, .cons .. => False
  | .cons .., .nil => False

/-- Files of the same bytes, wherever these come from, or directories that agree. -/
def Entry.Agrees (o : Options) (sources sources' : Sources) : Entry → Entry → Prop
  | .file f, .file f' => f.content.bytes sources = f'.content.bytes sources'
  | .directory d, .directory d' => d.Agrees o sources sources' d'
  | .file _, .directory _ => False
  | .directory _, .file _ => False

end

section

variable {o : Options} {sources sources' : Sources}

/-- What an image shows of a modification time is all of it that agreement compares. -/
theorem Options.stamp_eq_iff {mtime mtime' : Int64} : o.stamp mtime = o.stamp mtime'
    ↔ (o.timestamp = none → max mtime.toInt 0 = max mtime'.toInt 0) := by
  unfold stamp
  cases o.timestamp with
  | some t => exact ⟨fun _ => nofun, fun _ => rfl⟩
  | none =>
    simp only [forall_const]
    omega

mutual

/-- Directories agree when an image shows the same of them. -/
theorem Directory.agrees_iff (d d' : Directory) :
    d.Agrees o sources sources' d' ↔ d.listing o sources = d'.listing o sources' := by
  cases d with
  | mk mtime entries =>
    cases d' with
    | mk mtime' entries' => exact entries.agrees_iff entries'

theorem Entries.agrees_iff (entries entries' : Entries) :
    entries.Agrees o sources sources' entries'
      ↔ entries.listing o sources = entries'.listing o sources' := by
  cases entries with
  | nil =>
    cases entries' with
    | nil => exact ⟨fun _ => rfl, fun _ => trivial⟩
    | cons => exact ⟨False.elim, nofun⟩
  | cons name entry rest =>
    cases entries' with
    | nil => exact ⟨False.elim, nofun⟩
    | cons name' entry' rest' =>
      simp only [Entries.Agrees, Entries.listing, Listing.cons.injEq, Options.stamp_eq_iff]
      rw [entry.agrees_iff entry', rest.agrees_iff rest']

theorem Entry.agrees_iff (entry entry' : Entry) : entry.Agrees o sources sources' entry'
    ↔ entry.snapshot o sources = entry'.snapshot o sources' := by
  cases entry with
  | file f =>
    cases entry' with
    | file f' => simp only [Entry.Agrees, Entry.snapshot, Snapshot.file.injEq]
    | directory => exact ⟨False.elim, nofun⟩
  | directory d =>
    cases entry' with
    | file => exact ⟨False.elim, nofun⟩
    | directory d' =>
      simp only [Entry.Agrees, Entry.snapshot, Snapshot.directory.injEq]
      exact d.agrees_iff d'

end

/-! ## Trees that agree -/

/-- Everything that goes into an image, or keeps one from being made, is the same for two
directories. -/
structure Directory.Alike (o : Options) (sources sources' : Sources) (d d' : Directory) :
    Prop where
  size : d.size = d'.size
  count : d.count = d'.count
  tableBlocks : d.tableBlocks o.blockBytes = d'.tableBlocks o.blockBytes
  dataBlocks : d.dataBlocks o.blockBytes = d'.dataBlocks o.blockBytes
  tableBytes : ∀ parent s, d.tableBytes o parent s = d'.tableBytes o parent s
  dataBytes : d.dataBytes o.blockBytes sources = d'.dataBytes o.blockBytes sources'
  offence : ∀ path counted data,
    d.offence? o path counted data = d'.offence? o path counted data

/-- The same for the entries of two directories, from wherever they are placed. -/
structure Entries.Alike (o : Options) (sources sources' : Sources) (entries entries' : Entries) :
    Prop where
  size : entries.size = entries'.size
  count : entries.count = entries'.count
  tableBlocks : entries.tableBlocks o.blockBytes = entries'.tableBlocks o.blockBytes
  dataBlocks : entries.dataBlocks o.blockBytes = entries'.dataBlocks o.blockBytes
  records : ∀ parent s, entries.records o parent s = entries'.records o parent s
  tableBytes : ∀ own s, entries.tableBytes o own s = entries'.tableBytes o own s
  dataBytes : entries.dataBytes o.blockBytes sources = entries'.dataBytes o.blockBytes sources'
  offence : ∀ path counted data,
    entries.offence? o path counted data = entries'.offence? o path counted data

/-- The same for two entries, whatever names they have. -/
structure Entry.Alike (o : Options) (sources sources' : Sources) (entry entry' : Entry) :
    Prop where
  count : entry.count = entry'.count
  tableBlocks : entry.tableBlocks o.blockBytes = entry'.tableBlocks o.blockBytes
  dataBlocks : entry.dataBlocks o.blockBytes = entry'.dataBlocks o.blockBytes
  record : ∀ parent name s, entry.record o parent name s = entry'.record o parent name s
  tableBytes : ∀ own s, entry.tableBytes o own s = entry'.tableBytes o own s
  dataBytes : entry.dataBytes o.blockBytes sources = entry'.dataBytes o.blockBytes sources'
  offence : ∀ path name counted data,
    entry.offence? o path name counted data = entry'.offence? o path name counted data

theorem Layout.recordedMtime_congr {mtime mtime' : Int64}
    (same : o.timestamp = none → max mtime.toInt 0 = max mtime'.toInt 0) :
    recordedMtime o mtime = recordedMtime o mtime' := by
  apply UInt64.toNat_inj.1
  rw [toNat_recordedMtime, toNat_recordedMtime]
  exact Options.stamp_eq_iff.2 same

/-- Directories of entries that are alike are alike. -/
theorem Directory.alike_of_entries {mtime mtime' : Int64} {entries entries' : Entries}
    (h : entries.Alike o sources sources' entries') :
    (mk mtime entries).Alike o sources sources' (mk mtime' entries') where
  size := h.size
  count := h.count
  tableBlocks := by simp only [Directory.tableBlocks, h.size, h.tableBlocks]
  dataBlocks := h.dataBlocks
  tableBytes parent s := by
    simp only [Directory.tableBytes, Spot.below, h.size, h.records, h.tableBytes]
  dataBytes := h.dataBytes
  offence := h.offence

theorem Entries.alike_nil : nil.Alike o sources sources' nil where
  size := rfl
  count := rfl
  tableBlocks := rfl
  dataBlocks := rfl
  records _ _ := rfl
  tableBytes _ _ := rfl
  dataBytes := rfl
  offence _ _ _ := rfl

/-- Behind entries that are alike the other entries have the same place. -/
theorem Entries.alike_cons {entry entry' : Entry} {rest rest' : Entries} (name : Bytes)
    (first : entry.Alike o sources sources' entry') (others : rest.Alike o sources sources' rest') :
    (cons name entry rest).Alike o sources sources' (cons name entry' rest') where
  size := congrArg (· + 1) others.size
  count := by simp only [Entries.count, first.count, others.count]
  tableBlocks := by simp only [Entries.tableBlocks, first.tableBlocks, others.tableBlocks]
  dataBlocks := by simp only [Entries.dataBlocks, first.dataBlocks, others.dataBlocks]
  -- The others are placed behind the blocks of the first, of which there are as many for both.
  records parent s := by
    simp only [Entries.records, Spot.after, first.record, first.tableBlocks, first.dataBlocks,
      others.records]
  tableBytes own s := by
    simp only [Entries.tableBytes, Spot.after, first.tableBytes, first.tableBlocks,
      first.dataBlocks, others.tableBytes]
  dataBytes := by simp only [Entries.dataBytes, first.dataBytes, others.dataBytes]
  offence path counted data := by
    simp only [Entries.offence?, first.offence, first.count, first.dataBlocks, others.offence]

namespace Entry

/-- Files of the same bytes are alike, when each of them has the size that it claims. -/
theorem alike_file {f f' : File}
    (time : o.timestamp = none → max f.mtime.toInt 0 = max f'.mtime.toInt 0)
    (same : f.content.bytes sources = f'.content.bytes sources')
    (exact : f.content.Holds sources f.size.toNat)
    (exact' : f'.content.Holds sources' f'.size.toNat) :
    (file f).Alike o sources sources' (file f') := by
  have size : f.size = f'.size := by
    apply UInt64.toNat_inj.1
    rw [← exact.length_bytes, ← exact'.length_bytes, same]
  have stamp : Layout.recordedMtime o f.mtime = Layout.recordedMtime o f'.mtime :=
    Layout.recordedMtime_congr time
  exact {
    count := rfl
    tableBlocks := rfl
    dataBlocks := by simp only [dataBlocks, size]
    record := fun parent name s => by
      simp only [record, mtime, kind, bytes, start, blocks, size, stamp]
    tableBytes := fun _ _ => rfl
    dataBytes := by simp only [dataBytes, size, same]
    offence := fun path name counted data => by
      simp only [offence?, refusal?, sizeRefusal?, size] }

theorem alike_directory {d d' : Directory}
    (time : o.timestamp = none → max d.mtime.toInt 0 = max d'.mtime.toInt 0)
    (h : d.Alike o sources sources' d') :
    (directory d).Alike o sources sources' (directory d') where
  count := by simp only [count, h.count]
  tableBlocks := h.tableBlocks
  dataBlocks := h.dataBlocks
  record parent name s := by
    simp only [record, mtime, kind, bytes, start, blocks, h.size, Layout.recordedMtime_congr time]
  tableBytes := h.tableBytes
  dataBytes := h.dataBytes
  offence path name counted data := by
    simp only [offence?, refusal?, sizeRefusal?, h.size, h.offence]

end Entry

mutual

/-- Trees that agree are alike, when every file has the size that it claims. -/
theorem Directory.Agrees.alike {d d' : Directory} (agree : d.Agrees o sources sources' d')
    (exact : d.Exact sources) (exact' : d'.Exact sources') : d.Alike o sources sources' d' := by
  cases d with
  | mk mtime entries =>
    cases d' with
    | mk mtime' entries' =>
      exact Directory.alike_of_entries (Entries.Agrees.alike agree exact exact')

theorem Entries.Agrees.alike {entries entries' : Entries}
    (agree : entries.Agrees o sources sources' entries') (exact : entries.Exact sources)
    (exact' : entries'.Exact sources') : entries.Alike o sources sources' entries' := by
  cases entries with
  | nil =>
    cases entries' with
    | nil => exact Entries.alike_nil
    | cons => exact agree.elim
  | cons name entry rest =>
    cases entries' with
    | nil => exact agree.elim
    | cons name' entry' rest' =>
      obtain ⟨rfl, time, same, others⟩ := agree
      exact Entries.alike_cons name (Entry.Agrees.alike time same exact.1 exact'.1)
        (Entries.Agrees.alike others exact.2 exact'.2)

theorem Entry.Agrees.alike {entry entry' : Entry}
    (time : o.timestamp = none → max entry.mtime.toInt 0 = max entry'.mtime.toInt 0)
    (agree : entry.Agrees o sources sources' entry') (exact : entry.Exact sources)
    (exact' : entry'.Exact sources') : entry.Alike o sources sources' entry' := by
  cases entry with
  | file f =>
    cases entry' with
    | file f' => exact Entry.alike_file time agree exact exact'
    | directory => exact agree.elim
  | directory d =>
    cases entry' with
    | file => exact agree.elim
    | directory d' => exact Entry.alike_directory time (Directory.Agrees.alike agree exact exact')

end

/-! ## The image of a tree -/

mutual

/-- Every file that gets blocks has the size that it claims, when every file of the tree has. -/
theorem Directory.holds_of_exact {blockSize data : Nat} {path : Path} {d : Directory}
    (exact : d.Exact sources) :
    ∀ f ∈ d.files blockSize path data, f.content.Holds sources f.size.toNat := by
  cases d with
  | mk mtime entries => exact Entries.holds_of_exact exact

theorem Entries.holds_of_exact {blockSize data : Nat} {path : Path} {entries : Entries}
    (exact : entries.Exact sources) :
    ∀ f ∈ entries.files blockSize path data, f.content.Holds sources f.size.toNat := by
  cases entries with
  | nil => exact nofun
  | cons name entry rest =>
    exact List.forall_mem_append.2 ⟨Entry.holds_of_exact exact.1, Entries.holds_of_exact exact.2⟩

theorem Entry.holds_of_exact {blockSize data : Nat} {path : Path} {entry : Entry}
    (exact : entry.Exact sources) :
    ∀ f ∈ entry.files blockSize path data, f.content.Holds sources f.size.toNat := by
  cases entry with
  | file f =>
    unfold Entry.files
    by_cases empty : f.size = 0
    · rw [if_pos empty]
      exact nofun
    · rw [if_neg empty]
      exact List.forall_mem_singleton.2 exact
  | directory d => exact Directory.holds_of_exact exact

end

namespace Directory

variable {root root' : Directory}

/-- A tree whose files have the sizes that they claim compiles to its encoding, unless it has no
layout. -/
theorem image_eq (exact : root.Exact sources) :
    root.image sources o = match root.refusal? o with
      | some e => Fault.fail e
      | none => .ok (root.encode o sources).toBuffer := by
  have planned := plan_eq o root
  cases refused : root.refusal? o with
  | some e =>
    rw [refused] at planned
    simp only [image, compile, planned]
    rfl
  | none =>
    have placeable := refusal?_eq_none_iff.1 refused
    obtain ⟨after, run, encoded⟩ := placeable.compile_accepting (holds_of_exact exact) (.hole 0)
    simp only [image, run]
    refine congrArg Except.ok (Buffer.ofBuffer_injective ?_)
    rw [Blob.ofBuffer_toBuffer, encoded, Bytes.ofBuffer_toBuffer]

namespace Alike

theorem refusal?_eq (h : root.Alike o sources sources' root') :
    root.refusal? o = root'.refusal? o := by
  simp only [refusal?, dataStart, h.tableBlocks, h.offence]
  rfl

theorem encode_eq (h : root.Alike o sources sources' root') :
    root.encode o sources = root'.encode o sources' := by
  have superblock : root.superblock o = root'.superblock o := by
    simp only [Directory.superblock, totalBlocks, dataStart, h.size, h.count, h.tableBlocks,
      h.dataBlocks]
  simp only [encode, spot, dataStart, superblock, h.tableBlocks, h.tableBytes, h.dataBytes]

end Alike

/-- Trees with the same encoding agree, because it is read back as either of them. -/
theorem agrees_of_encode (placeable : root.Placeable o) (placeable' : root'.Placeable o)
    (exact : root.Exact sources) (exact' : root'.Exact sources')
    (same : root.encode o sources = root'.encode o sources') :
    root.Agrees o sources sources' root' := by
  have encoded := Bytes.ofBuffer_toBuffer (root.encode o sources)
  have encoded' := encoded.trans same
  -- The bytes are opened once, so both trees are read from the same image.
  have one : root.opened o _ = root'.opened o _ := Except.ok.inj
    ((placeable.ofBytes_eq_opened exact encoded).symm.trans
      (placeable'.ofBytes_eq_opened exact' encoded'))
  have read := placeable.decode_opened exact encoded (Nat.le_max_left root.height root'.height)
  rw [one, placeable'.decode_opened exact' encoded' (Nat.le_max_right ..)] at read
  exact (root.agrees_iff root').2 (Except.ok.inj read).symm

/-- Images of two trees are the same bytes exactly when the trees agree, and trees that agree
compile alike even where they have no image. So an image depends neither on the modification time
of the root nor on where the bytes of a file come from; and a directory, and with it every tree that
it is a part of, does not depend on the order in which its entries were inserted, or on whether they
were added one after the other or all at once. -/
theorem image_eq_iff_agrees (exact : root.Exact sources) (exact' : root'.Exact sources') :
    (∀ bytes bytes', root.image sources o = .ok bytes → root'.image sources' o = .ok bytes' →
        (bytes = bytes' ↔ root.Agrees o sources sources' root'))
      ∧ (root.Agrees o sources sources' root' → root.image sources o = root'.image sources' o)
      ∧ (∀ mtime, (root.setMtime mtime).image sources o = root.image sources o)
      ∧ (∀ (d : Directory) (pairs pairs' : List (Bytes × Entry)), pairs.Perm pairs' →
        (∀ pair ∈ pairs, ∀ pair' ∈ pairs, pair.1 = pair'.1 → pair = pair') →
        d.insertEach pairs = d.insertEach pairs')
      ∧ ∀ (d : Directory) (pairs : List (Bytes × Entry)), d.ordered →
        (∀ pair ∈ pairs, pair.2.ordered) → d.insertAll pairs = d.insertEach pairs := by
  have forward (agree : root.Agrees o sources sources' root') :
      root.image sources o = root'.image sources' o := by
    have alike := agree.alike exact exact'
    rw [image_eq exact, image_eq exact', alike.refusal?_eq, alike.encode_eq]
  refine ⟨fun bytes bytes' image image' => ⟨?_, ?_⟩, forward, fun mtime => ?_,
    fun d pairs pairs' perm unique => insertEach_eq_of_perm perm unique d,
    fun d pairs ordered inside => insertAll_eq_insertEach ordered inside⟩
  · rintro rfl
    obtain ⟨placeable, encoded⟩ := image_eq_ok image
    obtain ⟨placeable', encoded'⟩ := image_eq_ok image'
    exact agrees_of_encode placeable placeable' exact exact' (encoded.symm.trans encoded')
  · intro agree
    exact Except.ok.inj (image.symm.trans ((forward agree).trans image'))
  · cases root
    rfl

/-- The small tree at another time, its file from another moment before the epoch and on a host. -/
def hosted : Directory :=
  .mk 9 (.cons [0x61] (.directory (.mk 5 .nil))
    (.cons [0x62] (.file ⟨-1, 3, .host [0x66]⟩) .nil))

/-- Both trees have one image, and the first is what its entries come to in either order, and at
once. -/
theorem image_eq_iff_agrees_sample : ∃ bytes,
    sample.image (fun _ => .error (.described "missing")) {} = .ok bytes
      ∧ hosted.image (fun _ => .ok { content := .ofBuffer ⟨#[1, 2, 3]⟩ }) {} = .ok bytes
      ∧ (sample.setMtime 9).image (fun _ => .error (.described "missing")) {} = .ok bytes
      ∧ empty.insertEach [([0x62], .file ⟨-7, 3, .inline ⟨#[1, 2, 3]⟩⟩),
        ([0x61], .directory (.mk 5 .nil))] = sample
      ∧ empty.insertAll [([0x62], .file ⟨-7, 3, .inline ⟨#[1, 2, 3]⟩⟩),
        ([0x61], .directory (.mk 5 .nil))] = sample := by
  have exact : sample.Exact fun _ => .error (.described "missing") :=
    ⟨trivial, Content.holds_inline.2 rfl, trivial⟩
  have exact' : hosted.Exact fun _ => .ok { content := .ofBuffer ⟨#[1, 2, 3]⟩ } :=
    ⟨trivial, ⟨_, rfl, rfl, rfl⟩, trivial⟩
  have agree : sample.Agrees {} (fun _ => .error (.described "missing"))
      (fun _ => .ok { content := .ofBuffer ⟨#[1, 2, 3]⟩ }) hosted :=
    ⟨rfl, fun _ => rfl, trivial, rfl, fun _ => by decide, rfl, trivial⟩
  have image := image_eq (o := {}) exact
  rw [refusal?_eq_none_iff.2 sample_placeable] at image
  obtain ⟨_, forward, own, order, atOnce⟩ := image_eq_iff_agrees exact exact'
  have sorted := order empty [([0x62], .file ⟨-7, 3, .inline ⟨#[1, 2, 3]⟩⟩),
    ([0x61], .directory (.mk 5 .nil))] [([0x61], .directory (.mk 5 .nil)),
    ([0x62], .file ⟨-7, 3, .inline ⟨#[1, 2, 3]⟩⟩)] (.swap ..) (by simp)
  refine ⟨_, image, (forward agree).symm.trans image, (own 9).trans image, sorted, ?_⟩
  exact (atOnce empty _ rfl (by simp [Entry.ordered, Directory.ordered, Entries.ordered])).trans
    sorted

end Directory

end

end FlatImage
