import FlatImage.Proofs.BlockSize
import FlatImage.Proofs.Layout.Limits

/-!
# Planning computes the placement

The pass of `Layout.plan` is a state computation over two allocators and a 32-bit counter. Each of
its steps is described once, by what it gives from cursors that stand at exact natural numbers:
either the first refusal or the placement of `FlatImage.Proofs.Layout.Placement`. The steps compose
because a refusal that comes first hides every later one.
-/

namespace FlatImage.Layout

variable {o : Options} {s : Spot} {limit counted : Nat}

/-- Cursors at a spot, when tables end at block `limit` and `counted` entries were placed. -/
def Cursors.at (o : Options) (limit : Nat) (s : Spot) (counted : Nat) : Cursors :=
  ⟨⟨UInt64.ofNat s.tables, UInt64.ofNat limit⟩, ⟨UInt64.ofNat s.data, o.maxBlocks.toUInt64⟩,
    UInt32.ofNat counted⟩

/-- The cursors are exact: no number of a spot is beyond its limit, and all limits have 32 bits. -/
structure Cursors.Exact (o : Options) (limit : Nat) (s : Spot) (counted : Nat) : Prop where
  limit_lt : limit < UInt32.size
  tables_le : s.tables ≤ limit
  data_le : s.data ≤ o.maxBlocks.toNat
  counted_lt : counted < UInt32.size

/-- A refusal if there is one, and otherwise a result. -/
def answer {α : Type} (refusal : Option RunError) (result : α) : Except RunError α :=
  match refusal with
  | some e => .error e
  | none => .ok result

@[simp] theorem answer_none {α : Type} (result : α) : answer none result = .ok result := rfl

/-- Steps compose: the refusal of the first hides that of the second, which is only looked at when
the first has none. -/
theorem run_bind_answer {α β : Type} {m : Planning α} {f : α → Planning β} {c c' c'' : Cursors}
    {a : α} {b : β} {e e' : Option RunError} (first : m.run c = answer e (a, c'))
    (second : e = none → (f a).run c' = answer e' (b, c'')) :
    (m >>= f).run c = answer (e.or e') (b, c'') := by
  rw [StateT.run_bind, first]
  cases e with
  | none => exact second rfl
  | some e => rfl

/-- A result that only depends on the one before it. -/
theorem run_map_answer {α β : Type} {m : Planning α} {f : α → β} {c c' : Cursors} {a : α}
    {e : Option RunError} (first : m.run c = answer e (a, c')) :
    (m >>= fun a => pure (f a)).run c = answer e (f a, c') := by
  rw [StateT.run_bind, first]
  cases e with
  | none => rfl
  | some e => rfl

/-! ## Single steps -/

/-- An allocator at an exact number grants what fits before its limit. -/
theorem allocate_ofNat {next count : Nat} (limit : UInt64) (small : next < UInt32.size)
    (bound : count < UInt64.size) :
    (⟨UInt64.ofNat next, limit⟩ : Allocator).allocate (UInt64.ofNat count)
      = if limit.toNat < next + count then (none, ⟨UInt64.ofNat next, limit⟩)
        else (some (UInt32.ofNat next), ⟨UInt64.ofNat (next + count), limit⟩) := by
  have wide : next < UInt64.size := Nat.lt_trans small (by decide)
  have start : (UInt64.ofNat next).toNat = next := UInt64.toNat_ofNat_of_lt' wide
  have size : (UInt64.ofNat count).toNat = count := UInt64.toNat_ofNat_of_lt' bound
  have limited := limit.toNat_lt
  simp only [Allocator.allocate, start, size, if_pos small, UInt64.toUInt32_ofNat']
  by_cases past : limit.toNat < next + count
  · rw [if_pos (.inr past), if_pos past]
  · rw [if_neg (by simp only [UInt64.size]; omega), if_neg past]

namespace Cursors.Exact

theorem tables_lt (h : Cursors.Exact o limit s counted) : s.tables < UInt32.size :=
  Nat.lt_of_le_of_lt h.tables_le h.limit_lt

theorem data_lt (h : Cursors.Exact o limit s counted) : s.data < UInt32.size :=
  Nat.lt_of_le_of_lt h.data_le o.maxBlocks.toNat_lt

end Cursors.Exact

theorem run_countEntry (h : Cursors.Exact o limit s counted) (path : Path) :
    (Planning.countEntry o path).run (Cursors.at o limit s counted)
      = answer (if UInt32.size ≤ counted + 1 then some (.imageTooLarge path o.maxBlocks.toNat)
          else none) ((), Cursors.at o limit s (counted + 1)) := by
  have exact : (Cursors.at o limit s counted).entries.toNat = counted :=
    UInt32.toNat_ofNat_of_lt' h.counted_lt
  have next : (Cursors.at o limit s counted).entries + 1 = UInt32.ofNat (counted + 1) := by
    rw [UInt32.ofNat_add]
    rfl
  simp only [Planning.countEntry, StateT.run_bind, StateT.run_get, pure_bind, exact, next]
  by_cases full : UInt32.size ≤ counted + 1
  · rw [if_pos full, if_neg (Nat.not_lt.2 full)]
    rfl
  · rw [if_neg full, if_pos (Nat.lt_of_not_le full)]
    rfl

theorem run_allocateTable (h : Cursors.Exact o limit s counted) (path : Path) {count : Nat}
    (room : s.tables + count ≤ limit) :
    (Planning.allocateTable o path count).run (Cursors.at o limit s counted)
      = .ok (UInt32.ofNat s.tables, Cursors.at o limit ⟨s.tables + count, s.data⟩ counted) := by
  have small := h.limit_lt
  have bound : count < UInt64.size := by
    have : UInt32.size < UInt64.size := by decide
    omega
  have last : (UInt64.ofNat limit).toNat = limit :=
    UInt64.toNat_ofNat_of_lt' (Nat.lt_trans small (by decide))
  have granted : (Cursors.at o limit s counted).tables.allocate (UInt64.ofNat count) = _ :=
    allocate_ofNat _ h.tables_lt bound
  rw [last, if_neg (Nat.not_lt.2 room)] at granted
  simp only [Planning.allocateTable, StateT.run_bind, StateT.run_get, pure_bind, granted]
  rfl

theorem run_allocateData (h : Cursors.Exact o limit s counted) (path : Path) {count : Nat}
    (bound : count < UInt64.size) :
    (Planning.allocateData o path count).run (Cursors.at o limit s counted)
      = answer (if o.maxBlocks.toNat < s.data + count then
          some (.imageTooLarge path o.maxBlocks.toNat) else none)
        (UInt32.ofNat s.data, Cursors.at o limit ⟨s.tables, s.data + count⟩ counted) := by
  have granted : (Cursors.at o limit s counted).data.allocate (UInt64.ofNat count) = _ :=
    allocate_ofNat _ h.data_lt bound
  rw [UInt32.toNat_toUInt64] at granted
  by_cases past : o.maxBlocks.toNat < s.data + count
  · rw [if_pos past] at granted ⊢
    simp only [Planning.allocateData, StateT.run_bind, StateT.run_get, pure_bind, granted]
    rfl
  · rw [if_neg past] at granted ⊢
    simp only [Planning.allocateData, StateT.run_bind, StateT.run_get, pure_bind, granted]
    rfl

theorem run_entryRecord (c : Cursors) (path : Path) (name : Bytes) (kind : UInt8)
    (mtime : Int64) (parent : UInt32) :
    (entryRecord o path name kind mtime parent).run c
      = answer (Name.refusal? path name)
        ({ kind, nameLength := UInt8.ofNat name.length, reserved := 0, size := 0, start := 0,
           count := 0, parent, mtime := recordedMtime o mtime, nameField := Record.padName name },
         c) := by
  simp only [entryRecord, Record.named, Name.refusal?]
  cases Name.check name <;> rfl

/-! ## Files -/

private theorem blocksFor_eq_zero_iff {size : UInt64} (pos : 0 < o.blockBytes) :
    Geometry.blocksFor size.toNat o.blockBytes = 0 ↔ size = 0 := by
  have h : 0 < Geometry.blocksFor size.toNat o.blockBytes ↔ 0 < size.toNat :=
    Geometry.blocksFor_pos pos
  rw [← UInt64.toNat_inj]
  simp only [UInt64.toNat_zero]
  omega

theorem run_placeFile (h : Cursors.Exact o limit s counted) (pos : 0 < o.blockBytes)
    (path : Path) (name : Bytes) (parent : UInt32) (f : File) (record : Record)
    (same : { record with
        size := UInt32.ofNat (Entry.file f).bytes
        start := UInt32.ofNat ((Entry.file f).start s)
        count := UInt32.ofNat ((Entry.file f).blocks o.blockBytes) }
      = (Entry.file f).record o parent name s) :
    (placeFile o path record f).run (Cursors.at o limit s counted)
      = answer ((Entry.file f).sizeRefusal? o path s.data)
        (⟨[(Entry.file f).record o parent name s], [],
            (Entry.file f).files o.blockBytes path s.data⟩,
          Cursors.at o limit (s.after o.blockBytes (.file f)) counted) := by
  have bound : Geometry.blocksFor f.size.toNat o.blockBytes < UInt64.size :=
    Nat.lt_of_le_of_lt (Geometry.blocksFor_le ..) f.size.toNat_lt
  have after : s.after o.blockBytes (.file f)
      = ⟨s.tables, s.data + Geometry.blocksFor f.size.toNat o.blockBytes⟩ := rfl
  simp only [placeFile, Entry.sizeRefusal?]
  by_cases large : o.maxFileSize < f.size
  · rw [if_pos large, if_pos large]
    rfl
  · rw [if_neg large, if_neg large]
    by_cases empty : f.size = 0
    · have none : Geometry.blocksFor f.size.toNat o.blockBytes = 0 :=
        (blocksFor_eq_zero_iff pos).2 empty
      have fits : ¬ o.maxBlocks.toNat < s.data + 0 := Nat.not_lt.2 h.data_le
      simp only [none, if_true, if_neg fits, after, pure_bind, StateT.run_pure, ← same]
      simp only [Entry.files, Entry.start, Entry.blocks, if_pos empty, none]
      rfl
    · have some : Geometry.blocksFor f.size.toNat o.blockBytes ≠ 0 :=
        fun zero => empty ((blocksFor_eq_zero_iff pos).1 zero)
      have placed := run_map_answer (run_allocateData h path bound)
        (f := fun start => (⟨[{ record with
            size := UInt32.ofNat f.size.toNat
            start := start
            count := UInt32.ofNat (Geometry.blocksFor f.size.toNat o.blockBytes) }], [],
          [⟨path, start, UInt32.ofNat (Geometry.blocksFor f.size.toNat o.blockBytes), f.size,
            f.content⟩]⟩ : Placed))
      simp only [if_neg some, pure_bind, placed, after, ← same]
      simp only [Entry.files, Entry.start, Entry.blocks, Entry.bytes, if_neg empty]

/-! ## The whole pass -/

/-- One more entry is counted. -/
theorem Cursors.Exact.next {e : RunError} (h : Cursors.Exact o limit s counted)
    (none : (if UInt32.size ≤ counted + 1 then some e else none) = none) :
    Cursors.Exact o limit s (counted + 1) where
  limit_lt := h.limit_lt
  tables_le := h.tables_le
  data_le := h.data_le
  counted_lt := by
    split at none
    · cases none
    · next small => exact Nat.lt_of_not_le small

/-- The table of a directory is reserved. -/
theorem Cursors.Exact.below {entries : Entries} (h : Cursors.Exact o limit s counted)
    (room : s.tables + Geometry.tableBlocks entries.size o.blockBytes ≤ limit) :
    Cursors.Exact o limit (s.below o.blockBytes entries) counted :=
  { h with tables_le := room }

/-- The first entries have used up their blocks and their numbers, and leave room for the rest. -/
theorem Cursors.Exact.after {path : Path} {name : Bytes} {entry : Entry}
    (h : Cursors.Exact o limit s counted)
    (room : s.tables + entry.tableBlocks o.blockBytes ≤ limit)
    (none : entry.offence? o path name counted s.data = none) :
    Cursors.Exact o limit (s.after o.blockBytes entry) (counted + entry.count) where
  limit_lt := h.limit_lt
  tables_le := room
  data_le := ((entry.offence?_eq_none_iff h.data_le).1 none).data
  counted_lt := ((entry.offence?_eq_none_iff h.data_le).1 none).counted

mutual

theorem run_placeDirectory (pos : 0 < o.blockBytes) (path : Path) (parent : UInt32)
    (d : Directory) {s : Spot} {counted : Nat}
    (h : Cursors.Exact o limit (s.below o.blockBytes d.entries) counted)
    (room : s.tables + d.tableBlocks o.blockBytes ≤ limit) :
    (placeDirectory o path (UInt32.ofNat s.tables)
        (UInt32.ofNat (Geometry.tableBlocks d.size o.blockBytes)) parent d).run
        (Cursors.at o limit (s.below o.blockBytes d.entries) counted)
      = answer (d.offence? o path counted s.data)
        ((d.tables o path parent s, d.files o.blockBytes path s.data),
          Cursors.at o limit (s.after o.blockBytes (.directory d)) (counted + d.count)) := by
  cases d with
  | mk mtime entries =>
    have inner : Cursors.Exact o limit (s.below o.blockBytes entries) counted := h
    have inside : (s.below o.blockBytes entries).tables + entries.tableBlocks o.blockBytes
        ≤ limit := by
      simpa only [Directory.tableBlocks, Spot.below_tables, Nat.add_assoc] using room
    have last : (s.below o.blockBytes entries).afterAll o.blockBytes entries
        = s.after o.blockBytes (.directory (.mk mtime entries)) := by
      simp only [Spot.afterAll, Spot.below, Spot.after, Entry.tableBlocks, Entry.dataBlocks,
        Directory.tableBlocks, Directory.dataBlocks, Nat.add_assoc]
    have all := run_placeEntries pos path (UInt32.ofNat s.tables) parent entries inner inside
    rw [last] at all
    exact run_map_answer all

theorem run_placeEntries (pos : 0 < o.blockBytes) (path : Path) (own parent : UInt32)
    (entries : Entries) {s : Spot} {counted : Nat} (h : Cursors.Exact o limit s counted)
    (room : s.tables + entries.tableBlocks o.blockBytes ≤ limit) :
    (placeEntries o path own parent entries).run (Cursors.at o limit s counted)
      = answer (entries.offence? o path counted s.data)
        (⟨entries.records o parent s, entries.tables o path own s,
            entries.files o.blockBytes path s.data⟩,
          Cursors.at o limit (s.afterAll o.blockBytes entries) (counted + entries.count)) := by
  cases entries with
  | nil => rfl
  | cons name entry rest =>
    simp only [Entries.tableBlocks] at room
    have first := run_placeEntry pos (Path.join path name) name own parent entry h (by omega)
    simp only [placeEntries, Spot.afterAll_cons, Entries.count, ← Nat.add_assoc]
    apply run_bind_answer first
    intro none
    have others := run_placeEntries pos path own parent rest (h.after (by omega) none)
      (by simpa only [Spot.after_tables, Nat.add_assoc] using room)
    exact run_map_answer others

theorem run_placeEntry (pos : 0 < o.blockBytes) (path : Path) (name : Bytes)
    (own parent : UInt32) (entry : Entry) {s : Spot} {counted : Nat}
    (h : Cursors.Exact o limit s counted)
    (room : s.tables + entry.tableBlocks o.blockBytes ≤ limit) :
    (placeEntry o path name own parent entry).run (Cursors.at o limit s counted)
      = answer (entry.offence? o path name counted s.data)
        (⟨[entry.record o parent name s], entry.tables o path own s,
            entry.files o.blockBytes path s.data⟩,
          Cursors.at o limit (s.after o.blockBytes entry) (counted + entry.count)) := by
  cases entry with
  | file f =>
    apply run_bind_answer (run_entryRecord ..)
    intro _
    apply run_bind_answer (run_countEntry h path)
    intro more
    exact run_placeFile (h.next more) pos path name parent f _ rfl
  | directory d =>
    simp only [Entry.offence?, Entry.refusal?, Option.or_assoc]
    apply run_bind_answer (run_entryRecord ..)
    intro _
    apply run_bind_answer (run_countEntry h path)
    intro more
    have own : s.tables + Geometry.tableBlocks d.size o.blockBytes ≤ limit :=
      Nat.le_trans (Nat.add_le_add_left d.own_le_tableBlocks _) room
    by_cases large : UInt32.size ≤ d.size * Geometry.recordSize
    · simp only [Entry.sizeRefusal?, if_pos large]
      rfl
    · simp only [Entry.sizeRefusal?, if_neg large, Option.none_or, Entry.count,
        ← Nat.add_assoc]
      -- The table is always granted: the blocks of all tables were counted before.
      apply run_bind_answer (e := none) (run_allocateTable (h.next more) path own)
      intro _
      exact run_map_answer (run_placeDirectory pos path _ d ((h.next more).below own) room)

end

theorem run_placeRoot {root : Directory} (pos : 0 < o.blockBytes)
    (room : root.dataStart o ≤ o.maxBlocks.toNat) :
    (placeRoot o root).run (Cursors.at o (root.dataStart o) (root.spot o) 0)
      = answer (root.offence? o rootPath 0 (root.dataStart o))
        ((1, root.tables o rootPath 1 (root.spot o),
            root.files o.blockBytes rootPath (root.dataStart o)),
          Cursors.at o (root.dataStart o) ⟨root.dataStart o, root.totalBlocks o⟩ root.count) := by
  have start : Cursors.Exact o (root.dataStart o) (root.spot o) 0 :=
    ⟨Nat.lt_of_le_of_lt room o.maxBlocks.toNat_lt, Nat.le_add_right .., room, by decide⟩
  have own : (root.spot o).tables + Geometry.tableBlocks root.size o.blockBytes
      ≤ root.dataStart o := Nat.add_le_add_left root.own_le_tableBlocks _
  have all := run_placeDirectory pos rootPath 1 root (start.below own) (Nat.le_refl _)
  rw [Nat.zero_add] at all
  exact run_bind_answer (e := none) (run_allocateTable start rootPath own)
    fun _ => run_map_answer all

end FlatImage.Layout

namespace FlatImage.Directory

open Layout

/-- Why a tree has no layout: the options, the number of blocks that its tables need, or the first
entry that has no place. -/
def refusal? (o : Options) (root : Directory) : Option RunError :=
  match o.validate with
  | .error e => some (.invalidOptions e)
  | .ok () =>
    if o.maxBlocks.toNat < root.dataStart o then some (.imageTooLarge rootPath o.maxBlocks.toNat)
    else root.offence? o rootPath 0 (root.dataStart o)

/-- A tree that has a layout has this one, and planning never stops at a broken precondition. -/
theorem plan_eq (o : Options) (root : Directory) :
    plan root o = match root.refusal? o with
      | some e => Fault.fail e
      | none => .ok (root.layout o) := by
  unfold plan refusal?
  cases valid : o.validate with
  | error e => rfl
  | ok _ =>
    by_cases past : o.maxBlocks.toNat < root.dataStart o
    · simp only [if_pos past]
      exact if_pos past
    · have room := Nat.le_of_not_lt past
      simp only [if_neg past]
      refine (if_neg past).trans ?_
      have all : (placeRoot o root).run ⟨⟨1, UInt64.ofNat (1 + root.tableBlocks o.blockBytes)⟩,
          ⟨UInt64.ofNat (1 + root.tableBlocks o.blockBytes), o.maxBlocks.toUInt64⟩, 0⟩ = _ :=
        run_placeRoot (Options.blockBytes_pos_of_validate valid) room
      rw [all]
      cases root.offence? o rootPath 0 (root.dataStart o) with
      | some e => rfl
      | none =>
        -- The cursor of the tables ends exactly where the content starts.
        have met : ((UInt64.ofNat (root.dataStart o))
            == UInt64.ofNat (1 + root.tableBlocks o.blockBytes)) = true := beq_self_eq_true _
        simp only [answer_none, Cursors.at, met, UInt64.toUInt32_ofNat']
        rfl

/-- A tree that has a layout under some options. -/
structure Placeable (o : Options) (root : Directory) : Prop where
  valid : o.validate = .ok ()
  room : root.dataStart o ≤ o.maxBlocks.toNat
  placed : root.offence? o rootPath 0 (root.dataStart o) = none

theorem refusal?_eq_none_iff {o : Options} {root : Directory} :
    root.refusal? o = none ↔ root.Placeable o := by
  unfold refusal?
  cases valid : o.validate with
  | error e =>
    refine ⟨fun h => ?_, fun h => ?_⟩
    · cases h
    · exact absurd h.valid (by rw [valid]; exact fun h => nomatch h)
  | ok _ =>
    by_cases past : o.maxBlocks.toNat < root.dataStart o
    · simp only [if_pos past]
      exact ⟨fun h => (nomatch h), fun h => absurd h.room (Nat.not_le.2 past)⟩
    · simp only [if_neg past]
      exact ⟨fun h => ⟨valid, Nat.le_of_not_lt past, h⟩, fun h => h.placed⟩

/-- Planning succeeds for the placeable trees, and gives their layout. -/
theorem plan_eq_ok_iff {o : Options} {root : Directory} {l : Layout} :
    plan root o = .ok l ↔ root.Placeable o ∧ l = root.layout o := by
  rw [plan_eq, ← refusal?_eq_none_iff]
  cases root.refusal? o with
  | some e => exact ⟨fun h => (nomatch h), fun h => nomatch h.1⟩
  | none => exact ⟨fun h => ⟨rfl, (Except.ok.inj h).symm⟩, fun h => by rw [h.2]⟩

namespace Placeable

variable {o : Options} {root : Directory}

/-- Everything in a placeable tree is within the limits. -/
theorem admits (h : root.Placeable o) :
    o.Admits root.names (root.allFiles rootPath) (root.entries.directories rootPath) root.count
      (root.totalBlocks o) := by
  have all := (root.offence?_eq_none_iff (by decide) h.room).1 h.placed
  rwa [Nat.zero_add] at all

theorem totalBlocks_le (h : root.Placeable o) : root.totalBlocks o ≤ o.maxBlocks.toNat :=
  h.admits.data

theorem totalBlocks_lt (h : root.Placeable o) : root.totalBlocks o < UInt32.size :=
  Nat.lt_of_le_of_lt h.totalBlocks_le o.maxBlocks.toNat_lt

theorem dataStart_lt (h : root.Placeable o) : root.dataStart o < UInt32.size :=
  Nat.lt_of_le_of_lt h.room o.maxBlocks.toNat_lt

theorem count_lt (h : root.Placeable o) : root.count < UInt32.size := h.admits.counted

end Placeable

/-- A small tree: an empty directory, and a file of three bytes from before the epoch. -/
def sample : Directory :=
  .mk 0 (.cons [0x61] (.directory (.mk 5 .nil))
    (.cons [0x62] (.file ⟨-7, 3, .inline ⟨#[1, 2, 3]⟩⟩) .nil))

theorem sample_placeable : sample.Placeable {} where
  valid := rfl
  room := by decide
  placed := by decide

end FlatImage.Directory
