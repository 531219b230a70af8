import FlatImage.Proofs.Encoding
import FlatImage.Image

/-!
# What an image shows of a tree

A reader that follows every directory record gets a `Listing`: names, modification times and
contents, directory by directory. `Image.decode` is that reader. It goes no deeper than it is told,
because the records of a crafted image can lead around in circles; an image that was compiled is no
deeper than its tree.

`Directory.listing` is the same view of the tree itself, computed without any image.
-/

namespace FlatImage

mutual

/-- What an image shows of an entry. -/
inductive Snapshot where
  | file (data : Bytes)
  | directory (entries : Listing)

/-- What an image shows of the entries of a directory. -/
inductive Listing where
  | nil
  | cons (name : Bytes) (mtime : Nat) (entry : Snapshot) (rest : Listing)

end

/-! ## Reading an image -/

namespace Image

/-- Reads records one after the other, and what each of them leads to. -/
def list (look : Record → Reading Snapshot) : List Record → Reading Listing
  | [] => .ok .nil
  | record :: rest => do
    let name ← name record
    let entry ← look record
    let others ← list look rest
    return .cons name record.mtime.toNat entry others

/-- Reads what a record leads to, with `depth` levels of directories. -/
def look (img : Image) : (depth : Nat) → Record → Reading Snapshot
  | 0, record =>
    if record.isDirectory then .error .abort
    else do return .file (Bytes.ofBuffer (← img.fileData record))
  | depth + 1, record =>
    if record.isDirectory then do
      return .directory (← list (img.look depth) (← img.directory record))
    else do return .file (Bytes.ofBuffer (← img.fileData record))

/-- Reads everything that is reachable from the root, with `depth` levels of directories. -/
def decode (img : Image) (depth : Nat) : Reading Listing := do
  list (img.look depth) (← img.root)

end Image

/-! ## Looking at a tree -/

/-- The modification time that an image shows: that of the options, or else the entry's own, which
is not before the epoch. -/
def Options.stamp (o : Options) (mtime : Int64) : Nat :=
  match o.timestamp with
  | some t => t.toNat
  | none => (max mtime.toInt 0).toNat

mutual

/-- A tree as its image shows it. -/
def Directory.listing (o : Options) (sources : Sources) : Directory → Listing
  | .mk _ entries => entries.listing o sources

def Entries.listing (o : Options) (sources : Sources) : Entries → Listing
  | .nil => .nil
  | .cons name entry rest =>
    .cons name (o.stamp entry.mtime) (entry.snapshot o sources) (rest.listing o sources)

def Entry.snapshot (o : Options) (sources : Sources) : Entry → Snapshot
  | .file f => .file (f.content.bytes sources)
  | .directory d => .directory (d.listing o sources)

end

mutual

/-- How many levels of directories there are below a directory. -/
def Directory.height : Directory → Nat
  | .mk _ entries => entries.height

def Entries.height : Entries → Nat
  | .nil => 0
  | .cons _ entry rest => max entry.height rest.height

def Entry.height : Entry → Nat
  | .file _ => 0
  | .directory d => d.height + 1

end

mutual

/-- The content of every file in a tree has the length that the file claims. -/
def Directory.Exact (sources : Sources) : Directory → Prop
  | .mk _ entries => entries.Exact sources

def Entries.Exact (sources : Sources) : Entries → Prop
  | .nil => True
  | .cons _ entry rest => entry.Exact sources ∧ rest.Exact sources

def Entry.Exact (sources : Sources) : Entry → Prop
  | .file f => f.content.Holds sources f.size.toNat
  | .directory d => d.Exact sources

end

theorem Directory.entries_exact {sources : Sources} {d : Directory} (exact : d.Exact sources) :
    d.entries.Exact sources := by
  cases d
  exact exact

/-! ## Order -/

/-- Every name comes after `name`, if the listing ascends. -/
def Listing.startsAfter (name : Bytes) : Listing → Bool
  | .nil => true
  | .cons other _ _ _ => name.before other

mutual

/-- Names ascend strictly, here and in every directory below. -/
def Listing.ascending : Listing → Bool
  | .nil => true
  | .cons name _ entry rest => rest.startsAfter name && entry.ascending && rest.ascending

def Snapshot.ascending : Snapshot → Bool
  | .file _ => true
  | .directory entries => entries.ascending

end

mutual

/-- What an image shows of a tree is in the order of the tree. -/
theorem Directory.ascending_listing (o : Options) (sources : Sources) (d : Directory) :
    (d.listing o sources).ascending = d.ordered := by
  cases d with
  | mk mtime entries => exact entries.ascending_listing o sources

theorem Entries.ascending_listing (o : Options) (sources : Sources) (entries : Entries) :
    (entries.listing o sources).ascending = entries.ordered := by
  cases entries with
  | nil => rfl
  | cons name entry rest =>
    have first : (rest.listing o sources).startsAfter name = rest.startsAfter name := by
      cases rest <;> rfl
    simp only [Entries.listing, Listing.ascending, Entries.ordered, first]
    rw [entry.ascending_snapshot o sources, rest.ascending_listing o sources]

theorem Entry.ascending_snapshot (o : Options) (sources : Sources) (entry : Entry) :
    (entry.snapshot o sources).ascending = entry.ordered := by
  cases entry with
  | file f => rfl
  | directory d => exact d.ascending_listing o sources

end

theorem Layout.toNat_recordedMtime (o : Options) (mtime : Int64) :
    (recordedMtime o mtime).toNat = o.stamp mtime := by
  unfold recordedMtime Options.stamp
  cases o.timestamp with
  | some t => rfl
  | none =>
    have small := mtime.toInt_lt
    simp only [Option.getD_none]
    rw [UInt64.toNat_ofNat_of_lt' (by simp only [UInt64.size]; omega)]
    omega

end FlatImage
