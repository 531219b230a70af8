import FlatImage.Proofs.Host.Confinement
import FlatImage.Proofs.Host.Showing

/-!
# Unpacking what was compiled

The records of a compiled tree are worked through entry by entry, and each entry is made as a new
node of its directory, complete with everything below it. A directory is made empty, filled, and
stamped last, so the result is the same as if it had been put there in one piece: that is what lets
the recursion over the tree go from one directory to the next.

Only modification times can stand in the way. The host keeps them in signed numbers, and the options
take any timestamp of 64 bits.
-/

namespace FlatImage

open Host (Node Nodes Location)
open Host.Unpack (Context Seen Task)

/-- Every modification time that is recorded with the options is one of the host. -/
def Options.Restorable (o : Options) : Prop :=
  ∀ t, o.timestamp = some t → t < Host.mtimeBound

section

variable {o : Options}

/-- A modification time of a tree is at most that of a signed number. -/
theorem Options.Restorable.lt (restorable : o.Restorable) (mtime : Int64) :
    Layout.recordedMtime o mtime < Host.mtimeBound := by
  unfold Layout.recordedMtime
  cases stamp : o.timestamp with
  | some t => exact restorable t stamp
  | none =>
    have small := mtime.toInt_lt
    rw [UInt64.lt_iff_toNat_lt, Option.getD_none,
      UInt64.toNat_ofNat_of_lt' (by simp only [UInt64.size]; omega)]
    have bound : Host.mtimeBound.toNat = 9223372036854775808 := rfl
    omega

/-- Times that a host cannot keep are those of the options, and then every entry has one. -/
theorem Options.late_of_not_restorable (not : ¬ o.Restorable) (mtime : Int64) :
    ¬ Layout.recordedMtime o mtime < Host.mtimeBound := by
  simp only [Restorable, not_forall] at not
  obtain ⟨t, stamp, late⟩ := not
  simpa only [Layout.recordedMtime, stamp, Option.getD_some] using late

end

/-! ## Single tasks -/

namespace Host

section

variable {h : Host} {img : Image} {place : Location} {context : List Context} {record : Record}
variable {name : Bytes} {seen : Seen} {rest : List Task}

theorem unpackFile_of_vacant {data : ByteArray} (content : img.fileData record = .ok data)
    (new : h.entry? place record.name = none) :
    h.unpackFile img place context record
      = (h.add place record.name (h.freshFile (.ofBuffer data))).restoreMtime
        (place ++ [record.name]) context record.mtime := by
  have made : guarded none (h.vacant place record.name) = .ok () :=
    guarded_eq_ok_iff.2 ⟨rfl, vacant_eq_ok_iff.2 new⟩
  simp only [unpackFile, content, Unpack.reading, made]
  rfl

theorem enterDirectory_of_vacant {mtime : Int64} {entries : Nodes}
    (is : h.at? place = some (.directory mtime entries)) (new : h.entry? place name = none) :
    h.enterDirectory place context name
      = (.ok (place ++ [name]), h.add place name h.freshDirectory) := by
  have made : guarded none (h.vacant place name) = .ok () :=
    guarded_eq_ok_iff.2 ⟨rfl, vacant_eq_ok_iff.2 new⟩
  have found : entry? (h.add place name h.freshDirectory) place name = some h.freshDirectory :=
    at?_add is name h.freshDirectory []
  have opened : guarded none ((h.add place name h.freshDirectory).openEntry place name)
      = .ok (place ++ [name]) := by
    refine guarded_eq_ok_iff.2 ⟨rfl, ?_⟩
    rw [openEntry, found]
    rfl
  simp only [enterDirectory, made, opened]

theorem unpackAll_file {data : ByteArray} (names : Image.Names record name)
    (file : record.isDirectory = false) (content : img.fileData record = .ok data)
    (new : h.entry? place name = none) (small : record.mtime < mtimeBound) :
    h.unpackAll img seen (.record place context record :: rest)
      = (h.add place name (.file ⟨.ofBuffer data, record.mtime.toInt64, false⟩)).unpackAll img seen
        rest := by
  obtain rfl := names.name_eq
  have made : (h.add place record.name (h.freshFile (.ofBuffer data))).stamp
      (place ++ [record.name]) record.mtime.toInt64
      = h.add place record.name (.file ⟨.ofBuffer data, record.mtime.toInt64, false⟩) :=
    update_add ..
  rw [unpackAll_record _ _ _ _ (Unpack.nameOf_eq_ok_iff.2 names)]
  simp only [file, Bool.false_eq_true, if_false, unpackFile_of_vacant content new, restoreMtime,
    small, if_true, made, later_none]

/-- A run that ends because the host has no such modification time. -/
def EndsLate (run : Unpack.Step Unit × Host) : Prop :=
  ∃ context h', run = (Unpack.fail context .mtimeOutOfRange, h')

/-- A file whose modification time is too late is made, and then the run ends. -/
theorem endsLate_file {data : ByteArray} (names : Image.Names record name)
    (file : record.isDirectory = false) (content : img.fileData record = .ok data)
    (new : h.entry? place name = none) (late : ¬ record.mtime < mtimeBound) :
    EndsLate (h.unpackAll img seen (.record place context record :: rest)) := by
  obtain rfl := names.name_eq
  refine ⟨context ++ [.extracting record.name],
    h.add place record.name (h.freshFile (.ofBuffer data)), ?_⟩
  rw [unpackAll_record _ _ _ _ (Unpack.nameOf_eq_ok_iff.2 names)]
  simp only [file, Bool.false_eq_true, if_false, unpackFile_of_vacant content new, restoreMtime,
    late]
  rfl

/-- A directory is made empty, then filled, then stamped. -/
theorem unpackAll_directory {records : List Record} {mtime : Int64} {entries : Nodes}
    (into : h.at? place = some (.directory mtime entries)) (names : Image.Names record name)
    (is : record.isDirectory = true) (table : img.directory record = .ok records)
    (unseen : seen.has record.start.toNat = false) (new : h.entry? place name = none) :
    h.unpackAll img seen (.record place context record :: rest)
      = (h.add place name h.freshDirectory).unpackAll img (record.start :: seen)
        (records.map (.record (place ++ [name]) (context ++ [.extracting name]))
          ++ .stamp (place ++ [name]) (context ++ [.extracting name]) record.mtime :: rest) := by
  rw [unpackAll_record _ _ _ _ (Unpack.nameOf_eq_ok_iff.2 names)]
  simp only [is, if_true, table, unseen, Bool.false_eq_true, if_false,
    enterDirectory_of_vacant into new, later_none]

theorem unpackAll_stamp {mtime : UInt64} (small : mtime < mtimeBound) :
    h.unpackAll img seen (.stamp place context mtime :: rest)
      = (h.stamp place mtime.toInt64).unpackAll img seen rest := by
  rw [unpackAll]
  simp only [restoreMtime, small, if_true, later_none]

theorem endsLate_stamp {mtime : UInt64} (late : ¬ mtime < mtimeBound) :
    EndsLate (h.unpackAll img seen (.stamp place context mtime :: rest)) := by
  refine ⟨context, h, ?_⟩
  rw [unpackAll]
  simp only [restoreMtime, late, if_false]
  rfl

end

end Host

/-! ## The whole tree -/

section

variable {o : Options} {sources : Sources} {img : Image}

/-- What an entry brings with it that has a place: a name, and a record that can be read. -/
theorem Entry.names_of_offence? {path : Path} {name : Bytes} {counted data : Nat} {entry : Entry}
    (placed : entry.offence? o path name counted data = none) (parent : UInt32) (s : Spot) :
    Image.Names (entry.record o parent name s) name := by
  have refused := Entry.refusal?_of_offence? placed
  exact ⟨entry.name_record refused parent s, (Entry.refusal?_eq_none_iff.1 refused).1⟩

section

variable {path : Path} {name : Bytes} {counted : Nat} {s : Spot} {own : UInt32} {h : Host}
variable {place : Location} {mtime : Int64} {before : Nodes} {seen : Seen}

/-- The directory of a record is new, and so is its table. -/
theorem Entry.enter_of_stand (sound : img.Sound) (size : img.blockSize.toNat = o.blockBytes)
    (valid : o.validate = .ok ()) (d : Directory)
    (placed : (Entry.directory d).offence? o path name counted s.data = none) (parent : UInt32)
    (stand : img.Stand s (d.tableBytes o own s) (d.dataBytes o.blockBytes sources))
    (is : h.at? place = some (.directory mtime before)) (new : before.find? name = none)
    (entered : ∀ start ∈ seen, start.toNat < s.tables) (context : List Context)
    (rest : List Task) :
    ∃ seen₁ : Seen, (∀ start ∈ seen₁, start.toNat < (s.below o.blockBytes d.entries).tables)
      ∧ (h.add place name h.freshDirectory).at? (place ++ [name])
        = some (.directory h.now .nil)
      ∧ h.unpackAll img seen
          (.record place context ((Entry.directory d).record o parent name s) :: rest)
        = (h.add place name h.freshDirectory).unpackAll img seen₁
          ((d.entries.records o own (s.below o.blockBytes d.entries)).map
              (.record (place ++ [name]) (context ++ [.extracting name]))
            ++ .stamp (place ++ [name]) (context ++ [.extracting name])
              (Layout.recordedMtime o d.mtime) :: rest) := by
  have names := Entry.names_of_offence? placed parent s
  have new : h.entry? place name = none := (Host.entry?_eq is name).trans new
  simp only [Entry.offence?, Option.or_eq_none_iff] at placed
  have table := Entry.directory_record sound size valid d placed.1 parent own stand
  have inside : s.tables ≤ img.superblock.dataStart.toNat := Nat.le_of_mul_le_mul_right
    (Nat.le_trans (Nat.le_add_right ..) stand.tables_le) sound.pos
  have start : ((Entry.directory d).record o parent name s).start.toNat = s.tables :=
    UInt32.toNat_ofNat_of_lt' (Nat.lt_of_le_of_lt inside img.superblock.dataStart.toNat_lt)
  have unseen : seen.has ((Entry.directory d).record o parent name s).start.toNat = false := by
    rw [start, Host.Unpack.Seen.has, List.any_eq_false]
    intro other mem
    have earlier := entered other mem
    simp only [beq_iff_eq]
    omega
  have own_blocks : 1 ≤ Geometry.tableBlocks d.entries.size o.blockBytes :=
    Geometry.one_le_tableBlocks ..
  refine ⟨((Entry.directory d).record o parent name s).start :: seen, ?_,
    Host.at?_add is name h.freshDirectory [],
    Host.unpackAll_directory is names rfl table unseen new⟩
  intro other mem
  rw [Spot.below_tables]
  obtain rfl | mem := List.mem_cons.1 mem
  · omega
  · have earlier := entered other mem
    omega

end

mutual

/-- The entries of a directory are made, and the only tables that are entered are theirs. -/
theorem Entries.unpackAll_of_stand (sound : img.Sound) (size : img.blockSize.toNat = o.blockBytes)
    (valid : o.validate = .ok ()) (restorable : o.Restorable) {path : Path} {counted : Nat}
    {s : Spot} (entries : Entries) (placed : entries.offence? o path counted s.data = none)
    (exact : entries.Exact sources) (ordered : entries.ordered) (own parent : UInt32)
    (stand : img.Stand s (entries.tableBytes o own s) (entries.dataBytes o.blockBytes sources))
    {h : Host} {place : Location} {mtime : Int64} {before : Nodes}
    (is : h.at? place = some (.directory mtime before))
    (new : ∀ name, entries.find? name ≠ none → before.find? name = none) {seen : Seen}
    (entered : ∀ start ∈ seen, start.toNat < s.tables) (context : List Context)
    (rest : List Task) :
    ∃ seen' : Seen, (∀ start ∈ seen', start.toNat < s.tables + entries.tableBlocks o.blockBytes)
      ∧ h.unpackAll img seen ((entries.records o parent s).map (.record place context) ++ rest)
        = (entries.restoreIn o sources place h).unpackAll img seen' rest := by
  cases entries with
  | nil => exact ⟨seen, entered, rfl⟩
  | cons name entry others =>
    have behind := stand.rest size valid exact.1
    simp only [Entries.offence?, Option.or_eq_none_iff] at placed
    have own_new : before.find? name = none :=
      new name (by rw [Entries.find?_cons_self]; exact nofun)
    have new₁ := Entries.new_behind ordered new (entry.restored o sources)
    simp only [Entries.ordered, Bool.and_eq_true] at ordered
    obtain ⟨⟨after, ordered⟩, others_ordered⟩ := ordered
    obtain ⟨seen₁, entered₁, first⟩ := entry.unpackAll_of_stand sound size valid restorable placed.1
      exact.1 ordered own parent stand.left is own_new entered context
      ((others.records o parent (s.after o.blockBytes entry)).map (.record place context) ++ rest)
    have is₁ := Host.at?_edit_self (.cons name (entry.restored o sources)) is
    obtain ⟨seen₂, entered₂, rest⟩ := others.unpackAll_of_stand sound size valid restorable
      (s := s.after o.blockBytes entry) placed.2 exact.2 others_ordered own parent
      behind is₁ new₁ entered₁ context rest
    refine ⟨seen₂, ?_, first.trans rest⟩
    rw [Entries.tableBlocks, ← Nat.add_assoc]
    exact entered₂

/-- An entry is made with everything below it, in one piece. -/
theorem Entry.unpackAll_of_stand (sound : img.Sound) (size : img.blockSize.toNat = o.blockBytes)
    (valid : o.validate = .ok ()) (restorable : o.Restorable) {path : Path} {name : Bytes}
    {counted : Nat} {s : Spot} (entry : Entry)
    (placed : entry.offence? o path name counted s.data = none) (exact : entry.Exact sources)
    (ordered : entry.ordered) (own parent : UInt32)
    (stand : img.Stand s (entry.tableBytes o own s) (entry.dataBytes o.blockBytes sources))
    {h : Host} {place : Location} {mtime : Int64} {before : Nodes}
    (is : h.at? place = some (.directory mtime before)) (new : before.find? name = none)
    {seen : Seen} (entered : ∀ start ∈ seen, start.toNat < s.tables) (context : List Context)
    (rest : List Task) :
    ∃ seen' : Seen, (∀ start ∈ seen', start.toNat < s.tables + entry.tableBlocks o.blockBytes)
      ∧ h.unpackAll img seen (.record place context (entry.record o parent name s) :: rest)
        = (h.add place name (entry.restored o sources)).unpackAll img seen' rest := by
  have small (mtime : Int64) : Layout.recordedMtime o mtime < Host.mtimeBound := restorable.lt _
  cases entry with
  | file f =>
    have names := Entry.names_of_offence? placed parent s
    obtain ⟨data, content, bytes⟩ := Entry.fileData_record sound size valid f
      (Entry.refusal?_of_offence? placed) exact parent stand
    obtain rfl : data = (f.content.bytes sources).toBuffer :=
      Buffer.ofBuffer_injective (bytes.trans (Bytes.ofBuffer_toBuffer _).symm)
    exact ⟨seen, entered, Host.unpackAll_file names rfl content
      ((Host.entry?_eq is name).trans new) (small f.mtime)⟩
  | directory d =>
    obtain ⟨seen₁, entered₁, is₁, enters⟩ := Entry.enter_of_stand sound size valid d placed parent
      stand is new entered context rest
    simp only [Entry.offence?, Option.or_eq_none_iff] at placed
    cases d with
    | mk mtime entries =>
      obtain ⟨seen', entered', inner⟩ := entries.unpackAll_of_stand sound size valid restorable
        (s := s.below o.blockBytes entries) placed.2 exact ordered _ own
        (stand.below size valid) is₁ (fun _ _ => rfl) entered₁ (context ++ [.extracting name])
        (.stamp (place ++ [name]) (context ++ [.extracting name])
          (Layout.recordedMtime o mtime) :: rest)
      refine ⟨seen', ?_, enters.trans ?_⟩
      · rw [Entry.tableBlocks, Directory.tableBlocks, ← Nat.add_assoc]
        exact entered'
      · have filled : entries.restoreIn o sources (place ++ [name])
            (h.add place name h.freshDirectory)
            = h.add place name (.directory h.now (entries.restored o sources .nil)) :=
          Entries.restoreIn_add entries .nil
        have stamped : (h.add place name (.directory h.now (entries.restored o sources .nil))).stamp
            (place ++ [name]) (Layout.recordedMtime o mtime).toInt64
            = h.add place name ((Entry.directory (.mk mtime entries)).restored o sources) :=
          Host.update_add ..
        rw [← stamped, ← filled, ← Host.unpackAll_stamp (small mtime)]
        exact inner

end

mutual

/-- With a timestamp that is too late, unpacking ends at the first entry, or at what comes next. -/
theorem Entries.endsLate_of_stand (sound : img.Sound) (size : img.blockSize.toNat = o.blockBytes)
    (valid : o.validate = .ok ()) (late : ∀ mtime, ¬ Layout.recordedMtime o mtime < Host.mtimeBound)
    {path : Path} {counted : Nat} {s : Spot} (entries : Entries)
    (placed : entries.offence? o path counted s.data = none) (exact : entries.Exact sources)
    (own parent : UInt32)
    (stand : img.Stand s (entries.tableBytes o own s) (entries.dataBytes o.blockBytes sources))
    {h : Host} {place : Location} {mtime : Int64} {before : Nodes}
    (is : h.at? place = some (.directory mtime before))
    (new : ∀ name, entries.find? name ≠ none → before.find? name = none) {seen : Seen}
    (entered : ∀ start ∈ seen, start.toNat < s.tables) (context : List Context)
    {rest : List Task} (next : entries = .nil → Host.EndsLate (h.unpackAll img seen rest)) :
    Host.EndsLate (h.unpackAll img seen
      ((entries.records o parent s).map (.record place context) ++ rest)) := by
  cases entries with
  | nil => exact next rfl
  | cons name entry others =>
    simp only [Entries.offence?, Option.or_eq_none_iff] at placed
    exact entry.endsLate_of_stand sound size valid late placed.1 exact.1 own parent stand.left is
      (new name (by rw [Entries.find?_cons_self]; exact nofun)) entered context _

theorem Entry.endsLate_of_stand (sound : img.Sound) (size : img.blockSize.toNat = o.blockBytes)
    (valid : o.validate = .ok ()) (late : ∀ mtime, ¬ Layout.recordedMtime o mtime < Host.mtimeBound)
    {path : Path} {name : Bytes} {counted : Nat} {s : Spot} (entry : Entry)
    (placed : entry.offence? o path name counted s.data = none) (exact : entry.Exact sources)
    (own parent : UInt32)
    (stand : img.Stand s (entry.tableBytes o own s) (entry.dataBytes o.blockBytes sources))
    {h : Host} {place : Location} {mtime : Int64} {before : Nodes}
    (is : h.at? place = some (.directory mtime before)) (new : before.find? name = none)
    {seen : Seen} (entered : ∀ start ∈ seen, start.toNat < s.tables) (context : List Context)
    (rest : List Task) :
    Host.EndsLate (h.unpackAll img seen
      (.record place context (entry.record o parent name s) :: rest)) := by
  cases entry with
  | file f =>
    have names := Entry.names_of_offence? placed parent s
    obtain ⟨data, content, _⟩ := Entry.fileData_record sound size valid f
      (Entry.refusal?_of_offence? placed) exact parent stand
    exact Host.endsLate_file names rfl content ((Host.entry?_eq is name).trans new) (late f.mtime)
  | directory d =>
    obtain ⟨seen₁, entered₁, is₁, enters⟩ := Entry.enter_of_stand sound size valid d placed parent
      stand is new entered context rest
    simp only [Entry.offence?, Option.or_eq_none_iff] at placed
    rw [enters]
    cases d with
    | mk mtime entries =>
      exact entries.endsLate_of_stand sound size valid late (s := s.below o.blockBytes entries)
        placed.2 exact _ own (stand.below size valid) is₁ (fun _ _ => rfl) entered₁ _
        fun _ => Host.endsLate_stamp (late mtime)

end

end

/-! ## The image of a tree -/

section

variable {o : Options} {sources : Sources}

namespace Directory

variable {root : Directory} {bytes : ByteArray} {h : Host} {dest : Path} {dir : Location}
variable {mtime : Int64}

/-- The first tasks of unpacking are the records of the root's table. -/
theorem Placeable.unpack_opened (placeable : root.Placeable o) (exact : root.Exact sources)
    (encoded : Bytes.ofBuffer bytes = root.encode o sources)
    (opened : h.openDirectory dest true = .ok dir) :
    h.unpack (root.opened o bytes) dest = h.unpackAll (root.opened o bytes) [1]
      ((root.entries.records o 1 ((root.spot o).below o.blockBytes root.entries)).map
        (.record dir []) ++ []) := by
  have records := placeable.root_opened exact encoded
  rw [List.append_nil, Host.unpack, opened]
  simp only [records, Host.Unpack.reading]
  rfl

theorem entered_root (o : Options) (root : Directory) : ∀ start ∈ [(1 : UInt32)],
    start.toNat < ((root.spot o).below o.blockBytes root.entries).tables := by
  intro start mem
  obtain rfl := List.mem_singleton.1 mem
  exact Nat.lt_add_of_pos_right (Geometry.one_le_tableBlocks ..)

theorem entries_ordered (ordered : root.ordered) : root.entries.ordered := by
  cases root
  exact ordered

theorem Placeable.entries_placed (placeable : root.Placeable o) :
    root.entries.offence? o Layout.rootPath 0 (root.dataStart o) = none := by
  rw [← offence?_eq]
  exact placeable.placed

/-- The image of an exact tree is unpacked into an empty directory entry by entry, when all times
are those of a host. -/
theorem Placeable.unpack_of_restorable (placeable : root.Placeable o) (exact : root.Exact sources)
    (ordered : root.ordered) (encoded : Bytes.ofBuffer bytes = root.encode o sources)
    (opened : h.openDirectory dest true = .ok dir)
    (empty : h.at? dir = some (.directory mtime .nil))
    (restorable : o.Restorable ∨ root.entries = .nil) :
    h.unpack (root.opened o bytes) dest = (.ok (), root.entries.restoreIn o sources dir h) := by
  have sound := placeable.sound_opened exact encoded
  have stand := (placeable.stand_opened exact encoded).below rfl placeable.valid
  have entered := entered_root o root
  rw [placeable.unpack_opened exact encoded opened]
  obtain restorable | none := restorable
  · obtain ⟨_, _, all⟩ := root.entries.unpackAll_of_stand
      (s := (root.spot o).below o.blockBytes root.entries) sound rfl placeable.valid restorable
      placeable.entries_placed (entries_exact exact) (entries_ordered ordered) _ 1 stand empty
      (fun _ _ => rfl) entered [] []
    exact all.trans (Host.unpackAll.eq_1 ..)
  · rw [none]
    exact Host.unpackAll.eq_1 ..

/-- With times that are not, it is not unpacked, unless it has no entries. -/
theorem Placeable.endsLate (placeable : root.Placeable o) (exact : root.Exact sources)
    (encoded : Bytes.ofBuffer bytes = root.encode o sources)
    (opened : h.openDirectory dest true = .ok dir)
    (empty : h.at? dir = some (.directory mtime .nil))
    (late : ¬ (o.Restorable ∨ root.entries = .nil)) :
    Host.EndsLate (h.unpack (root.opened o bytes) dest) := by
  obtain ⟨unkept, some⟩ := not_or.1 late
  have sound := placeable.sound_opened exact encoded
  have stand := (placeable.stand_opened exact encoded).below rfl placeable.valid
  rw [placeable.unpack_opened exact encoded opened]
  exact root.entries.endsLate_of_stand (s := (root.spot o).below o.blockBytes root.entries) sound
    rfl placeable.valid (Options.late_of_not_restorable unkept) placeable.entries_placed
    (entries_exact exact) _ 1 stand empty (fun _ _ => rfl) (entered_root o root) []
    (fun none => absurd none some)

/-- The image of a tree opens. If all modification times in it are times that the host can keep, it
is unpacked into an empty directory without fail, and then everything in the tree is there and
nothing else. The only times that the host cannot keep are timestamps of the options, from 2 ^ 63
on, which are accepted: with one of them unpacking fails, unless the tree has no entries at all. -/
theorem unpack_of_image (ordered : root.ordered) (image : root.image sources o = .ok bytes)
    (opened : h.openDirectory dest true = .ok dir)
    (empty : h.at? dir = some (.directory mtime .nil)) :
    ∃ img, Image.ofBytes bytes = .ok img
      ∧ (o.Restorable ∨ root.entries = .nil → ∃ h', h.unpack img dest = (.ok (), h')
        ∧ ∀ loc, loc ≠ [] → h'.view (dir ++ loc)
          = ((Entry.directory root).at? loc).map (Entry.unpacked o sources))
      ∧ (¬ (o.Restorable ∨ root.entries = .nil) → Host.EndsLate (h.unpack img dest)) := by
  obtain ⟨placeable, exact, encoded⟩ := settled_of_image image
  have none_iff : root.settled.entries = .nil ↔ root.entries = .nil := by
    cases root with
    | mk own entries => cases entries <;> simp [settled, Directory.entries, Entries.settled]
  have ordered' : root.settled.ordered := root.ordered_settled.trans ordered
  rw [← none_iff]
  refine ⟨root.settled.opened o bytes, placeable.ofBytes_eq_opened exact encoded, ?_, ?_⟩
  · intro restorable
    exact ⟨_, placeable.unpack_of_restorable exact ordered' encoded opened empty restorable,
      fun loc inside => view_restoreIn ordered empty inside⟩
  · exact placeable.endsLate exact encoded opened empty

end Directory

end

/-! ## The small tree -/

namespace Directory

/-- The small tree is unpacked into the empty directory of a new host. -/
theorem unpack_of_image_sample : ∃ bytes img h',
    sample.image (fun _ => .error (.described "missing")) {} = .ok bytes
      ∧ Image.ofBytes bytes = .ok img
      ∧ (Host.scratch 9).unpack img Name.current = (.ok (), h')
      ∧ h'.view ((Host.scratch 9).current ++ [[0x61]]) = some (.directory 5 .nil)
      ∧ h'.view ((Host.scratch 9).current ++ [[0x62]])
        = some (.file ⟨.ofBuffer ⟨#[1, 2, 3]⟩, 0, false⟩) := by
  obtain ⟨bytes, image⟩ := exists_image_sample none fun _ => .error (.described "missing")
  obtain ⟨opened, empty⟩ := Host.openDirectory_scratch 9
  obtain ⟨img, is, succeeds, _⟩ := unpack_of_image (by decide) image opened empty
  obtain ⟨h', run, all⟩ := succeeds (.inl nofun)
  exact ⟨bytes, img, h', image, is, run, all [[0x61]] nofun, all [[0x62]] nofun⟩

/-- With the first timestamp that is too late the small tree has an image, which is opened and is
not unpacked. -/
theorem unpack_sample_late : ∃ bytes img,
    sample.image (fun _ => .error (.described "missing")) { timestamp := some Host.mtimeBound }
        = .ok bytes
      ∧ Image.ofBytes bytes = .ok img
      ∧ Host.EndsLate ((Host.scratch 9).unpack img Name.current) := by
  obtain ⟨bytes, image⟩ :=
    exists_image_sample (some Host.mtimeBound) fun _ => .error (.described "missing")
  obtain ⟨opened, empty⟩ := Host.openDirectory_scratch 9
  obtain ⟨placeable, exact, encoded⟩ := settled_of_image image
  refine ⟨bytes, _, image, placeable.ofBytes_eq_opened exact encoded,
    placeable.endsLate exact encoded opened empty (not_or.2 ⟨?_, nofun⟩)⟩
  intro restorable
  exact absurd (restorable _ rfl) (by decide)

end Directory

end FlatImage
