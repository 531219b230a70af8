import FlatImage.Proofs.Dump.Specimen
import FlatImage.Proofs.Dump.Visiting
import FlatImage.Proofs.Host.Extracting

/-!
# Dumping and unpacking end

A dump and an extraction both go through the tables of an image as a `Traversal` does. The one
refuses a table whose start was claimed before, and the other keeps a list of the tables that it
has entered, with the root's in it from the beginning. What they enter lies among the blocks for
tables in either case, and is entered once, so the tables are no more than these blocks, and no more
of them are entered one within the other: `traversals_end`.
-/

namespace FlatImage

variable {bytes : ByteArray} {img : Image}

/-- Whatever bytes are opened as an image, going through its tables ends, for a dump and for an
extraction, even where directories lead back to a table or share one. As many levels as there are
blocks for tables are enough, and every table is entered once, so that these are no more than the
blocks for tables. Of the regions that a dump finds, it computes no number that leaves its type. -/
theorem traversals_end (opened : Image.ofBytes bytes = .ok img) :
    ∃ records, img.root = .ok records
      ∧ (∃ tour, (Dump.visitor img).walk img.superblock.metaBlocks.toNat Dump.rootPath records
            (.single (Dump.rootRegion img records)) = some tour
          ∧ img.Entered tour.entered
          ∧ Dump.regions img
            = tour.finish (fun e _ => .error e) fun claims => .ok claims.regions.reverse)
      ∧ (∀ (h : Host) dest dir, h.openDirectory dest true = .ok dir →
          ∃ tour, (Host.extractor img).walk img.superblock.metaBlocks.toNat (dir, []) records
              (h, [img.superblock.rootTable]) = some tour
            ∧ img.Entered tour.entered ∧ h.unpack img dest = (tour.result, tour.state.1))
      ∧ ∀ found, Dump.regions img = .ok found → Dump.InRange img found := by
  have sound := (Image.opened_of_ofBytes opened).toSound
  have fit := Image.regions_of_ofBytes opened
  have root : img.root = .ok _ := Image.table_eq_ok sound fit.rootTable fit.rootTable_le
  refine ⟨_, root, Dump.exists_tour opened root, ?_, ?_⟩
  · intro h dest dir into
    exact Host.exists_tour opened root into
  · intro found listed
    exact Dump.inRange opened listed

/-- The record of a directory whose table is the one that the record stands in, when that is the
first. -/
def loopRecord : Record := { Dump.sharedRecord [0x61] 64 1 1 with kind := Record.directoryKind }

/-- In an image whose only directory is within itself, a dump and an extraction enter the root's
table alone. -/
theorem traversals_end_loop :
    ∃ img, Image.ofBytes (Dump.specimenBytes [loopRecord] 0).toBuffer = .ok img
      ∧ img.directory loopRecord = .ok [loopRecord]
      ∧ (∃ tour, (Dump.visitor img).walk 1 Dump.rootPath [loopRecord]
            (.single (Dump.rootRegion img [loopRecord])) = some tour ∧ tour.entered = [])
      ∧ ∀ (h : Host) dest dir, h.openDirectory dest true = .ok dir →
          ∃ tour, (Host.extractor img).walk 1 (dir, []) [loopRecord]
              (h, [img.superblock.rootTable]) = some tour ∧ tour.entered = [] := by
  have opened := Dump.ofBytes_specimen [loopRecord] 0 (by decide) (by decide)
  have root := Dump.root_specimen [loopRecord] 0 (by decide) (by decide)
  obtain ⟨records, found, ⟨tour, walked, entered, _⟩, unpacked, _⟩ := traversals_end opened
  obtain rfl := Except.ok.inj (root.symm.trans found)
  have alone {starts : List UInt32} (entered : (Dump.specimen [loopRecord] 0).Entered starts) :
      starts = [] :=
    List.eq_nil_of_length_eq_zero (Nat.le_zero.1 (Nat.le_of_succ_le_succ entered.few))
  have loops : (Dump.specimen [loopRecord] 0).directory loopRecord = .ok [loopRecord] := by
    have named : Image.name loopRecord = .ok [0x61] := rfl
    rw [Image.directory, named, Fault.ok_bind, if_neg (by decide)]
    dsimp only
    rw [if_neg (by decide)]
    exact root
  refine ⟨_, opened, loops, ⟨tour, walked, alone entered⟩, fun h dest dir into => ?_⟩
  obtain ⟨tour, walked, entered, _⟩ := unpacked h dest dir into
  exact ⟨tour, walked, alone entered⟩

end FlatImage
