import FlatImage.Proofs.Host.Blindness
import FlatImage.Proofs.Traversal

/-!
# Unpacking ends

Unpacking goes over the records of an image as a `Traversal` does. It keeps a list of the tables
that it has entered, in which the root's stands from the beginning, and enters no table that stands
in it. So it is a tour from the root's table: `exists_tour`.
-/

namespace FlatImage.Host

variable {bytes : ByteArray} {img : Image}

open Unpack (Context Seen Task Step Failure nameOf)

/-- What unpacking does at a record, in a directory and a context. -/
def look (img : Image) (place : Location × List Context) (record : Record) (s : Host × Seen) :
    Look (Host × Seen) (Location × List Context) (Fault Failure) :=
  match nameOf place.2 record with
  | .error e => .failed e s
  | .ok name =>
    let context := place.2 ++ [.extracting name]
    if record.isDirectory then
      match img.directory record with
      | .error e => .failed (e.map fun e => ⟨context, .image e⟩) s
      | .ok records =>
        if s.2.has record.start.toNat then
          .failed (.error ⟨context, .reachableTwice record.start⟩) s
        else
          match s.1.enterDirectory place.1 context name with
          | (.error e, h) => .failed e (h, record.start :: s.2)
          | (.ok sub, h) => .entered record.start records (sub, context) (h, record.start :: s.2)
    else
      match s.1.unpackFile img place.1 context record with
      | (.error e, h) => .failed e (h, s.2)
      | (.ok (), h) => .passed (h, s.2)

/-- Unpacking as a traversal, which sets a directory's modification time when the directory is
done. -/
def extractor (img : Image) :
    Traversal (Host × Seen) (Location × List Context) (Fault Failure) where
  look := look img
  leave place record s :=
    let (result, h) := s.1.restoreMtime place.1 place.2 record.mtime
    (result, (h, s.2))

variable {place : Location × List Context} {record : Record} {records : List Record}
variable {s s' : Host × Seen} {rest : List Task}

theorem unpackAll_cons : s.1.unpackAll img s.2 (.record place.1 place.2 record :: rest)
    = match look img place record s with
      | .failed e s => (.error e, s.1)
      | .passed s => s.1.unpackAll img s.2 rest
      | .entered _ records inner s => s.1.unpackAll img s.2
          (records.map (.record inner.1 inner.2)
            ++ .stamp inner.1 inner.2 record.mtime :: rest) := by
  unfold look
  cases named : nameOf place.2 record with
  | error e => simp only [unpackAll, named]
  | ok name =>
    rw [unpackAll_record _ _ _ _ named]
    dsimp only
    split
    · cases img.directory record with
      | error e => rfl
      | ok records =>
        dsimp only
        split
        · rfl
        · generalize s.1.enterDirectory place.1 _ name = entered
          obtain ⟨e | sub, h⟩ := entered <;> rfl
    · generalize s.1.unpackFile img place.1 _ record = unpacked
      obtain ⟨e | done, h⟩ := unpacked <;> rfl

theorem of_leave {result : Step Unit} (left : (extractor img).leave place record s = (result, s')) :
    s.1.restoreMtime place.1 place.2 record.mtime = (result, s'.1) ∧ s'.2 = s.2 := by
  obtain ⟨rfl, rfl⟩ := Prod.mk.inj left
  exact ⟨rfl, rfl⟩

theorem workedBy_unpackAll (img : Image) : (extractor img).WorkedBy
    (fun tasks s => s.1.unpackAll img s.2 tasks) (fun place => .record place.1 place.2)
    (fun place record => [.stamp place.1 place.2 record.mtime]) (fun e s => (.error e, s.1)) where
  failed looked := by
    rw [unpackAll_cons, show look img _ _ _ = _ from looked]
  passed looked := by
    rw [unpackAll_cons, show look img _ _ _ = _ from looked]
  entered looked := by
    rw [unpackAll_cons, show look img _ _ _ = _ from looked]
    rfl
  stopped left := by
    simp only [List.singleton_append, unpackAll, (of_leave left).1]
  left left := by
    obtain ⟨step, seen⟩ := of_leave left
    simp only [List.singleton_append, unpackAll, step, seen, later_none]

theorem of_look_passed (looked : look img place record s = .passed s') : s'.2 = s.2 := by
  unfold look at looked
  dsimp only at looked
  split at looked
  · cases looked
  · split at looked
    · split at looked
      · cases looked
      · split at looked
        · cases looked
        · split at looked <;> cases looked
    · split at looked
      · cases looked
      · cases looked
        rfl

/-- A table is entered when its start is new to the list, and stands in it then. -/
theorem of_look_entered {start : UInt32} {inner : Location × List Context}
    (looked : look img place record s = .entered start records inner s') :
    img.directory record = .ok records ∧ start = record.start
      ∧ s.2.has record.start.toNat = false ∧ s'.2 = record.start :: s.2 := by
  unfold look at looked
  dsimp only at looked
  split at looked
  · cases looked
  · split at looked
    · split at looked
      · cases looked
      · next readable =>
        split at looked
        · cases looked
        · next new =>
          split at looked
          · cases looked
          · cases looked
            exact ⟨readable, rfl, Bool.eq_false_iff.2 new, rfl⟩
    · split at looked <;> cases looked

/-- Unpacking enters no table whose start stands in its list. -/
theorem wary_extractor (valid : img.Valid) : (extractor img).Wary img.superblock.dataStart.toNat
    fun s => Image.withHeader s.2.has where
  passed looked := by
    rw [of_look_passed looked]
    exact fun _ old => old
  entered looked := by
    obtain ⟨readable, rfl, new, seen⟩ := of_look_entered looked
    obtain ⟨behind, before⟩ := Image.inside_of_directory valid readable
    rw [seen]
    refine ⟨before, ?_, ?_, Image.withHeader_mono fun b old => ?_⟩
    · rw [Image.withHeader_of_pos behind, new]
    · rw [Image.withHeader_of_pos behind]
      simp [Seen.has]
    · simp only [Seen.has, List.any_cons] at old ⊢
      rw [old, Bool.or_true]
  left left := by
    rw [(of_leave left).2]
    exact fun _ old => old

/-- Unpacking into a directory is a tour from the root's table. -/
theorem exists_tour (opened : Image.ofBytes bytes = .ok img) {records : List Record}
    (root : img.root = .ok records) {h : Host} {dest : Path} {dir : Location}
    (into : h.openDirectory dest true = .ok dir) :
    ∃ tour, (extractor img).walk img.superblock.metaBlocks.toNat (dir, []) records
        (h, [img.superblock.rootTable]) = some tour
      ∧ img.Entered tour.entered ∧ h.unpack img dest = (tour.result, tour.state.1) := by
  have valid := (Image.opened_of_ofBytes opened).toValid
  have marked : Unpack.Seen.has [img.superblock.rootTable] img.superblock.rootTable.toNat := by
    simp [Unpack.Seen.has]
  obtain ⟨tour, walked, entered⟩ := Image.exists_tour (k := (dir, []))
    (s := (h, [img.superblock.rootTable])) opened (wary_extractor valid) marked records
  refine ⟨tour, walked, entered, ?_⟩
  have run := (workedBy_unpackAll img).run_walk walked []
  rw [List.append_nil] at run
  rw [unpack, into]
  dsimp only
  rw [root]
  refine run.trans ?_
  unfold Tour.finish
  cases tour.result with
  | error e => rfl
  | ok => simp only [unpackAll]

end FlatImage.Host
