import FlatImage.Proofs.Queries
import FlatImage.Proofs.Settled

/-!
# Parent links

A record names the table above the one it stands in: the table of the directory that contains the
directory of the record, and the root's own table for a record of the root. In an image that was
compiled these links lead back: tables lie behind those of the directories above them, all records
of a table name the same table, and whoever replaces a table by the one that its records name comes
through the tables above and ends at the root's. A `Lineage` is a table with those above it, found
from the root downwards; `Image.climb` goes the other way and reads nothing but parent links.
-/

namespace FlatImage

namespace Image

/-- A table that can be reached: its first block, the first blocks of the tables above it from the
next one to the root's, and its records. -/
inductive Lineage (img : Image) : UInt32 → List UInt32 → List Record → Prop where
  | root {records : List Record} (found : img.root = .ok records) :
      Lineage img img.superblock.rootTable [] records
  | inside {own : UInt32} {above : List UInt32} {record : Record} {records inner : List Record}
      (reached : Lineage img own above records) (mem : record ∈ records)
      (table : img.directory record = .ok inner) : Lineage img record.start (own :: above) inner

/-- The table that the first record of a table names. -/
def up (img : Image) (table : UInt32) : Reading UInt32 := do
  let first ← img.table table 1
  Fault.demand (first.head?.map Record.parent)

/-- Goes up from a table so many times. -/
def climb (img : Image) : (steps : Nat) → UInt32 → Reading UInt32
  | 0, table => .ok table
  | steps + 1, table => do img.climb steps (← img.up table)

/-- The parent links of an image lead from every table back to the root's. -/
structure Linked (img : Image) : Prop where
  root : ∃ records, img.root = .ok records
    ∧ ∀ record ∈ records, record.parent = img.superblock.rootTable
  inside : ∀ own above records record, img.Lineage own above records → record ∈ records →
    record.isDirectory → ∃ inner, img.directory record = .ok inner ∧ own < record.start
      ∧ ∀ child ∈ inner, child.parent = own
  /-- Whichever record of a table is asked, it names the same table. -/
  up : ∀ own above records record, img.Lineage own above records → record ∈ records →
    img.up own = .ok record.parent
  /-- A table with a record leads through all tables above it. -/
  climb : ∀ own above records, img.Lineage own above records → records ≠ [] →
    (∀ steps table, (own :: above)[steps]? = some table → img.climb steps own = .ok table)
      ∧ img.climb above.length own = .ok img.superblock.rootTable

variable {img : Image} {record : Record}

/-- The last of the tables above one, or the table itself, is the root's. -/
theorem Lineage.getElem?_length {own : UInt32} {above : List UInt32} {records : List Record}
    (lineage : img.Lineage own above records) :
    (own :: above)[above.length]? = some img.superblock.rootTable := by
  induction lineage with
  | root _ => rfl
  | inside _ _ _ ih => exact ih

end Image

/-! ## Tables that stand in an image -/

section

variable {o : Options} {sources : Sources} {img : Image} {parent : UInt32} {record : Record}

theorem Entries.parent_of_mem_records {s : Spot} (entries : Entries)
    (mem : record ∈ entries.records o parent s) : record.parent = parent := by
  match entries with
  | .nil => cases mem
  | .cons name entry rest =>
    obtain rfl | mem := List.mem_cons.1 mem
    · rfl
    · exact rest.parent_of_mem_records mem

/-- A record is that of an entry, and what the entry stands for is not in front of the others. -/
theorem Entries.exists_of_mem_records (size : img.blockSize.toNat = o.blockBytes)
    (valid : o.validate = .ok ()) {path : Path} {counted : Nat} {s : Spot} {own : UInt32}
    (entries : Entries) (placed : entries.offence? o path counted s.data = none)
    (exact : entries.Exact sources)
    (stand : img.Stand s (entries.tableBytes o own s) (entries.dataBytes o.blockBytes sources))
    (mem : record ∈ entries.records o parent s) :
    ∃ path name counted s' entry, record = Entry.record o parent name s' entry
      ∧ s.tables ≤ s'.tables ∧ entry.offence? o path name counted s'.data = none
      ∧ entry.Exact sources
      ∧ img.Stand s' (entry.tableBytes o own s') (entry.dataBytes o.blockBytes sources) := by
  match entries with
  | .nil => cases mem
  | .cons name entry rest =>
    simp only [Entries.offence?, Option.or_eq_none_iff] at placed
    obtain rfl | mem := List.mem_cons.1 mem
    · exact ⟨_, name, counted, s, entry, rfl, Nat.le_refl _, placed.1, exact.1, stand.left⟩
    · have behind := stand.rest size valid exact.1
      obtain ⟨path, name, counted, s', entry', is, later, found⟩ :=
        rest.exists_of_mem_records size valid (s := s.after o.blockBytes entry) placed.2 exact.2
          behind mem
      exact ⟨path, name, counted, s', entry', is, Nat.le_trans (Nat.le_add_right ..) later, found⟩

/-- A directory of a tree stands at a spot of an image, and its records name `parent`. -/
structure Image.Shows (img : Image) (o : Options) (sources : Sources) (d : Directory)
    (parent : UInt32) (s : Spot) : Prop where
  placed : ∃ path counted, d.offence? o path counted s.data = none
  exact : d.Exact sources
  stand : img.Stand s (d.tableBytes o parent s) (d.dataBytes o.blockBytes sources)

/-- The records of a directory that stands at a spot. -/
def Directory.recordsAt (o : Options) (parent : UInt32) (s : Spot) (d : Directory) :
    List Record := d.entries.records o parent (s.below o.blockBytes d.entries)

namespace Image.Shows

variable {d : Directory} {s : Spot}

/-- A directory's record leads to a directory whose table is behind and whose records name the
table of the record. -/
theorem inside (sound : img.Sound) (size : img.blockSize.toNat = o.blockBytes)
    (valid : o.validate = .ok ()) (shows : img.Shows o sources d parent s)
    (mem : record ∈ d.recordsAt o parent s) (is : record.isDirectory) :
    ∃ sub s', record.start = UInt32.ofNat s'.tables
      ∧ UInt32.ofNat s.tables < UInt32.ofNat s'.tables
      ∧ img.Shows o sources sub (UInt32.ofNat s.tables) s'
      ∧ img.directory record = .ok (sub.recordsAt o (UInt32.ofNat s.tables) s') := by
  obtain ⟨path, counted, placed⟩ := shows.placed
  rw [Directory.offence?_eq] at placed
  have stand := shows.stand.below size valid
  obtain ⟨path, name, counted, s', entry, rfl, later, placed, exact, stand⟩ :=
    d.entries.exists_of_mem_records size valid (s := s.below o.blockBytes d.entries) placed
      (Directory.entries_exact shows.exact) stand mem
  cases entry with
  | file f => cases is
  | directory sub =>
    simp only [Entry.offence?, Option.or_eq_none_iff] at placed
    refine ⟨sub, s', rfl, ?_, ⟨⟨_, _, placed.2⟩, exact, stand⟩,
      Entry.directory_record sound size valid sub placed.1 parent _ stand⟩
    have one := Geometry.one_le_tableBlocks d.entries.size o.blockBytes
    rw [Spot.below_tables] at later
    rw [UInt32.lt_iff_toNat_lt, shows.stand.toNat_own size valid, stand.toNat_own size valid]
    omega

/-- The first record of a table is found without knowing how many there are. -/
theorem up (sound : img.Sound) (size : img.blockSize.toNat = o.blockBytes)
    (valid : o.validate = .ok ()) (shows : img.Shows o sources d parent s)
    (some : d.recordsAt o parent s ≠ []) : img.up (UInt32.ofNat s.tables) = .ok parent := by
  have own := shows.stand.toNat_own size valid
  have within := shows.stand.own_le size valid
  have stands : (Bytes.ofBuffer img.bytes).At (s.tables * img.blockSize.toNat)
      (Record.encodeMany (d.recordsAt o parent s)) := shows.stand.records_at
  have named : ∀ record ∈ d.recordsAt o parent s, record.parent = parent :=
    fun _ mem => d.entries.parent_of_mem_records mem
  obtain ⟨first, rest, is⟩ := List.exists_cons_of_ne_nil some
  have front : Record.encodeMany (first :: rest)
      = Record.encodeMany [first] ++ Record.encodeMany rest := by
    rw [Record.encodeMany, Record.encodeMany, Record.encodeMany, ← List.flatMap_append,
      List.singleton_append]
  rw [is, front] at stands
  have one : Geometry.tableBlocks 1 img.blockSize.toNat
      ≤ Geometry.tableBlocks d.size o.blockBytes := by
    rw [size]
    exact Nat.le_trans (Geometry.tableBlocks_le (Options.recordSize_le_of_validate valid))
      (Geometry.one_le_tableBlocks ..)
  have found : img.table (UInt32.ofNat s.tables) 1 = .ok [first] := by
    refine Image.table_of_at sound rfl ?_ ?_ ?_
    · rw [own]
      exact shows.stand.behind
    · rw [own]
      exact Nat.le_trans (Nat.add_le_add_left one _) within
    · rw [own]
      exact stands.left
  rw [Image.up, found, Fault.ok_bind]
  exact congrArg Except.ok (named first (by rw [is]; exact List.mem_cons_self))

end Image.Shows

/-- The table of an image's root is that of a directory of a tree. -/
structure Image.Carries (img : Image) (o : Options) (sources : Sources) : Prop where
  valid : img.Valid
  size : img.blockSize.toNat = o.blockBytes
  validated : o.validate = .ok ()
  root : ∃ root s, img.superblock.rootTable = UInt32.ofNat s.tables
    ∧ img.Shows o sources root img.superblock.rootTable s
    ∧ img.root = .ok (root.recordsAt o img.superblock.rootTable s)

namespace Image.Lineage

variable {own : UInt32} {above : List UInt32} {records : List Record}

/-- A table that can be reached is that of a directory, and its records name the next table above,
or the root's own for the root. -/
theorem shows (carries : img.Carries o sources) (lineage : img.Lineage own above records) :
    ∃ d s, own = UInt32.ofNat s.tables
      ∧ img.Shows o sources d (above.headD img.superblock.rootTable) s
      ∧ records = d.recordsAt o (above.headD img.superblock.rootTable) s := by
  induction lineage with
  | root opened =>
    obtain ⟨root, s, start, shows, found⟩ := carries.root
    exact ⟨root, s, start, shows, Except.ok.inj (opened.symm.trans found)⟩
  | inside _ mem table ih =>
    obtain ⟨d, s, rfl, shows, rfl⟩ := ih
    have is := ((decided_directory carries.valid _).of_ok table).1.kind
    obtain ⟨sub, s', start, _, inside, readable⟩ :=
      shows.inside carries.valid.toSound carries.size carries.validated mem (beq_iff_eq.2 is)
    exact ⟨sub, s', start, inside, Except.ok.inj (table.symm.trans readable)⟩

theorem up_eq (carries : img.Carries o sources) (lineage : img.Lineage own above records)
    (mem : record ∈ records) : img.up own = .ok record.parent
      ∧ record.parent = above.headD img.superblock.rootTable := by
  obtain ⟨d, s, rfl, shows, rfl⟩ := lineage.shows carries
  have named := d.entries.parent_of_mem_records mem
  have next := shows.up carries.valid.toSound carries.size carries.validated
    (List.ne_nil_of_mem mem)
  exact ⟨named ▸ next, named⟩

/-- Going up from a table with a record leads to the tables above it, one after the other. -/
theorem climb_eq (carries : img.Carries o sources) (lineage : img.Lineage own above records)
    (some : records ≠ []) {steps : Nat} {table : UInt32}
    (there : (own :: above)[steps]? = Option.some table) : img.climb steps own = .ok table := by
  induction lineage generalizing steps table with
  | root found =>
    cases steps with
    | zero => exact congrArg Except.ok (Option.some.inj there)
    | succ steps => cases there
  | inside reached mem readable ih =>
    cases steps with
    | zero => exact congrArg Except.ok (Option.some.inj there)
    | succ steps =>
      obtain ⟨record, among⟩ := List.exists_mem_of_ne_nil _ some
      obtain ⟨next, named⟩ := (reached.inside mem readable).up_eq carries among
      rw [Image.climb, next, named, Fault.ok_bind]
      exact ih (List.ne_nil_of_mem mem) there

end Image.Lineage

theorem Image.Carries.linked (carries : img.Carries o sources) : img.Linked where
  root := by
    obtain ⟨root, s, _, _, found⟩ := carries.root
    exact ⟨_, found, fun _ mem => root.entries.parent_of_mem_records mem⟩
  inside := by
    intro own above records record lineage mem is
    obtain ⟨d, s, rfl, shows, rfl⟩ := lineage.shows carries
    obtain ⟨sub, s', start, behind, _, readable⟩ :=
      shows.inside carries.valid.toSound carries.size carries.validated mem is
    rw [start]
    exact ⟨_, readable, behind, fun _ mem => sub.entries.parent_of_mem_records mem⟩
  up := fun _ _ _ _ lineage mem => (lineage.up_eq carries mem).1
  climb := by
    intro own above records lineage some
    exact ⟨fun _ _ there => lineage.climb_eq carries some there,
      lineage.climb_eq carries some lineage.getElem?_length⟩

/-! ## The image of a tree -/

namespace Directory

variable {root : Directory} {bytes : ByteArray}

/-- An image that was compiled opens, and its parent links lead from every table back to the
root's, through the tables of the directories above. -/
theorem linked_of_image (image : root.image sources o = .ok bytes) :
    ∃ img, Image.ofBytes bytes = .ok img ∧ img.Linked := by
  obtain ⟨placeable, exact, encoded⟩ := settled_of_image image
  have opened := placeable.ofBytes_eq_opened exact encoded
  have carries : (root.settled.opened o bytes).Carries o sources := {
    valid := (Image.opened_of_ofBytes opened).toValid
    size := rfl
    validated := placeable.valid
    root := ⟨root.settled, root.settled.spot o, rfl,
      ⟨⟨_, _, placeable.placed⟩, exact, placeable.stand_opened exact encoded⟩,
      placeable.root_opened exact encoded⟩ }
  exact ⟨_, opened, carries.linked⟩

/-- Two directories inside each other, and a file in the inner one. -/
def threeDeep : Directory :=
  .mk 0 (.cons [0x64] (.directory (.mk 0 (.cons [0x65] (.directory (.mk 0
    (.cons [0x66] (.file ⟨0, 1, .inline ⟨#[0x66]⟩⟩) .nil))) .nil))) .nil)

theorem linked_of_image_threeDeep : ∃ bytes img,
    threeDeep.image (fun _ => .error (.described "missing")) {} = .ok bytes
      ∧ Image.ofBytes bytes = .ok img ∧ img.Linked := by
  have compiles : ∃ bytes, threeDeep.image (fun _ => .error (.described "missing")) {}
      = .ok bytes := by
    refine exists_image_iff.2 ⟨⟨rfl, by decide, by decide⟩, fun place mem _ => ?_⟩
    obtain rfl := List.mem_singleton.1 mem
    exact Content.holds_inline.2 rfl
  obtain ⟨bytes, image⟩ := compiles
  obtain ⟨img, opened, linked⟩ := linked_of_image image
  exact ⟨bytes, img, image, opened, linked⟩

end Directory

end

end FlatImage
