import FlatImage.Path

/-!
# Source trees

A tree is what an image is compiled from: directories with named entries, and files that say how
long they are and where their bytes come from. The length that a file claims and the bytes that it
has are separate, because a host file can change between the walk and the writing.

Directories, their entry lists and their entries are mutually inductive rather than nested in a
list type, so that every traversal is a structural recursion over three small cases. Entries are
kept in ascending byte order of their names, each name once: `Entries.insert` keeps that order and
`Directory.ordered` states it. The order of a tree is the order of its image.
-/

namespace FlatImage

/-- Where the bytes of a file come from when the image is written. -/
inductive Content where
  | inline (bytes : ByteArray)
  /-- A path on the host, read when the image is written. -/
  | host (path : Path)

/-- A file of a source tree. Modification times are seconds since the epoch. -/
structure File where
  mtime : Int64
  size : UInt64
  content : Content

mutual

/-- A directory: its own modification time, and its entries. -/
inductive Directory where
  | mk (mtime : Int64) (entries : Entries)

/-- Named entries, in order. -/
inductive Entries where
  | nil
  | cons (name : Bytes) (entry : Entry) (rest : Entries)

/-- What a name in a directory stands for. -/
inductive Entry where
  | file (file : File)
  | directory (directory : Directory)

end

namespace Entries

def toList : Entries → List (Bytes × Entry)
  | nil => []
  | cons name entry rest => (name, entry) :: rest.toList

def size : Entries → Nat
  | nil => 0
  | cons _ _ rest => rest.size + 1

def find? (name : Bytes) : Entries → Option Entry
  | nil => none
  | cons other entry rest => if other = name then some entry else rest.find? name

/-- Puts an entry in its place in the order; one of the same name is replaced. -/
def insert (name : Bytes) (entry : Entry) : Entries → Entries
  | nil => cons name entry nil
  | cons other old rest =>
    if other = name then cons name entry rest
    else if name.before other then cons name entry (cons other old rest)
    else cons other old (rest.insert name entry)

/-- Puts an entry in front of later ones, unless the first of them has its name. -/
def prepend (name : Bytes) (entry : Entry) (later : Entries) : Entries :=
  match later with
  | nil => cons name entry nil
  | cons other _ _ => if other = name then later else cons name entry later

/-- The entries of a list in the order of their names, and of several of one name the last. They are
sorted once, so that no entry is compared with all others. -/
def ofList (entries : List (Bytes × Entry)) : Entries :=
  (entries.mergeSort fun a b => !Bytes.before b.1 a.1).foldr (fun (name, entry) later =>
    later.prepend name entry) nil

/-- Every name comes after `name`, if the entries are in order. -/
def startsAfter (name : Bytes) : Entries → Bool
  | nil => true
  | cons other _ _ => name.before other

@[simp] theorem length_toList (entries : Entries) : entries.toList.length = entries.size := by
  match entries with
  | nil => rfl
  | cons _ _ rest => simp [toList, size, length_toList rest]

@[simp] theorem find?_insert_self (name : Bytes) (entry : Entry) (entries : Entries) :
    (entries.insert name entry).find? name = some entry := by
  match entries with
  | nil => simp [insert, find?]
  | cons other old rest =>
    unfold insert
    split
    · simp [find?]
    · next h =>
      split
      · simp [find?]
      · simp [find?, h, find?_insert_self name entry rest]

theorem find?_insert_of_ne {name other : Bytes} (entry : Entry) (entries : Entries)
    (h : other ≠ name) : (entries.insert name entry).find? other = entries.find? other := by
  match entries with
  | nil => simp [insert, find?, Ne.symm h]
  | cons first old rest =>
    unfold insert
    split
    · next e => subst e; simp [find?, Ne.symm h]
    · split
      · simp [find?, Ne.symm h]
      · simp [find?, find?_insert_of_ne entry rest h]

end Entries

namespace Directory

def mtime : Directory → Int64
  | mk mtime _ => mtime

def entries : Directory → Entries
  | mk _ entries => entries

def empty : Directory := mk 0 .nil

def size (d : Directory) : Nat := d.entries.size

def find? (d : Directory) (name : Bytes) : Option Entry := d.entries.find? name

/-- Adds an entry or replaces the one of that name. -/
def insert (d : Directory) (name : Bytes) (entry : Entry) : Directory :=
  mk d.mtime (d.entries.insert name entry)

/-- Adds entries one after the other. -/
def insertAll (d : Directory) (entries : List (Bytes × Entry)) : Directory :=
  mk d.mtime (.ofList (d.entries.toList ++ entries))

/-- The same entries under another modification time. -/
def setMtime (d : Directory) (mtime : Int64) : Directory := mk mtime d.entries

@[simp] theorem mtime_insert (d : Directory) (name : Bytes) (entry : Entry) :
    (d.insert name entry).mtime = d.mtime := rfl

@[simp] theorem find?_insert_self (d : Directory) (name : Bytes) (entry : Entry) :
    (d.insert name entry).find? name = some entry := Entries.find?_insert_self ..

theorem find?_insert_of_ne (d : Directory) {name other : Bytes} (entry : Entry)
    (h : other ≠ name) : (d.insert name entry).find? other = d.find? other :=
  Entries.find?_insert_of_ne _ _ h

end Directory

mutual

/-- How many entries a directory and everything below it have. -/
def Directory.count : Directory → Nat
  | .mk _ entries => entries.count

def Entries.count : Entries → Nat
  | .nil => 0
  | .cons _ entry rest => entry.count + rest.count

/-- An entry counts itself and what is below it. -/
def Entry.count : Entry → Nat
  | .file _ => 1
  | .directory d => 1 + d.count

end

mutual

/-- The newest modification time of a directory and everything below it. -/
def Directory.newest : Directory → Int64
  | .mk mtime entries => entries.newest mtime

/-- The newest modification time among entries, if it is newer than `other`. -/
def Entries.newest (other : Int64) : Entries → Int64
  | .nil => other
  | .cons _ entry rest => rest.newest (max other entry.newest)

def Entry.newest : Entry → Int64
  | .file f => f.mtime
  | .directory d => d.newest

end

namespace Entry

def mtime : Entry → Int64
  | .file f => f.mtime
  | .directory d => d.mtime

end Entry

mutual

/-- Names ascend and are unique, here and in every directory below. -/
def Directory.ordered : Directory → Bool
  | .mk _ entries => entries.ordered

def Entries.ordered : Entries → Bool
  | .nil => true
  | .cons name entry rest => rest.startsAfter name && entry.ordered && rest.ordered

def Entry.ordered : Entry → Bool
  | .file _ => true
  | .directory d => d.ordered

end

namespace Entries

theorem startsAfter_insert {first name : Bytes} {entries : Entries} (entry : Entry)
    (h : entries.startsAfter first) (lt : first.before name) :
    (entries.insert name entry).startsAfter first := by
  match entries with
  | nil => simpa [insert, startsAfter] using lt
  | cons other old rest =>
    unfold insert
    split
    · simpa [startsAfter] using lt
    · split
      · simpa [startsAfter] using lt
      · simpa [startsAfter] using h

/-- Inserting an ordered entry keeps the order. -/
theorem ordered_insert {name : Bytes} {entry : Entry} {entries : Entries}
    (h : entries.ordered) (he : entry.ordered) : (entries.insert name entry).ordered := by
  match entries with
  | nil => simp [insert, ordered, startsAfter, he]
  | cons other old rest =>
    simp only [ordered, Bool.and_eq_true] at h
    obtain ⟨⟨after, hold⟩, hrest⟩ := h
    unfold insert
    split
    · next e => subst e; simp [ordered, he, after, hrest]
    · next ne =>
      split
      · next lt =>
        have first : (cons other old rest).startsAfter name := lt
        simp [ordered, he, after, hold, hrest, first]
      · next nlt =>
        have lt : Bytes.before other name := by
          rcases Bytes.before_trichotomy other name with h | h | h
          · exact h
          · exact absurd h ne
          · exact absurd h nlt
        simp [ordered, hold, startsAfter_insert entry after lt, ordered_insert hrest he]

end Entries

namespace Directory

theorem ordered_insert {d : Directory} {name : Bytes} {entry : Entry} (h : d.ordered)
    (he : entry.ordered) : (d.insert name entry).ordered := by
  cases d
  simpa [insert, ordered, entries] using Entries.ordered_insert h he

end Directory

end FlatImage
