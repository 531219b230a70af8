import FlatImage.Proofs.Layout.Placement

/-!
# The limits of a run

Planning looks at one entry after the other and stops at the first that is beyond a limit. Whether
there is such an entry can be said of a whole tree at once: of all its names, files and
directories, and of the numbers of entries and blocks that are counted at its end. These two
numbers only grow on the way, so a limit that holds at the end held at every entry.

The first refusal says which limit was passed and where; here only whether one was.
-/

namespace FlatImage

/-! ## Everything below a directory -/

mutual

/-- The names of all entries below a directory, in pre-order. -/
def Directory.names : Directory → List Bytes
  | .mk _ entries => entries.names

def Entries.names : Entries → List Bytes
  | .nil => []
  | .cons name entry rest => name :: entry.names ++ rest.names

/-- The names below an entry, without its own. -/
def Entry.names : Entry → List Bytes
  | .file _ => []
  | .directory d => d.names

end

mutual

/-- A directory and all directories below it, with their paths, in pre-order. -/
def Directory.directories (path : Path) : Directory → List (Path × Directory)
  | .mk mtime entries => (path, .mk mtime entries) :: entries.directories path

def Entries.directories (path : Path) : Entries → List (Path × Directory)
  | .nil => []
  | .cons name entry rest => entry.directories (Path.join path name) ++ rest.directories path

def Entry.directories (path : Path) : Entry → List (Path × Directory)
  | .file _ => []
  | .directory d => d.directories path

end

mutual

/-- All files in and below a directory, with their paths, in pre-order. -/
def Directory.allFiles (path : Path) : Directory → List (Path × File)
  | .mk _ entries => entries.allFiles path

def Entries.allFiles (path : Path) : Entries → List (Path × File)
  | .nil => []
  | .cons name entry rest => entry.allFiles (Path.join path name) ++ rest.allFiles path

def Entry.allFiles (path : Path) : Entry → List (Path × File)
  | .file f => [(path, f)]
  | .directory d => d.allFiles path

end

/-- A directory comes before the directories below it. -/
theorem Directory.directories_eq (path : Path) (d : Directory) :
    d.directories path = (path, d) :: d.entries.directories path := by
  cases d
  rfl

/-! ## Being within the limits -/

/-- Names, files and directories are within the limits of a run, and so are `counted` entries and
`data` blocks. -/
structure Options.Admits (o : Options) (names : List Bytes) (files : List (Path × File))
    (directories : List (Path × Directory)) (counted data : Nat) : Prop where
  names : ∀ name ∈ names, Name.check name = .ok ()
  files : ∀ place ∈ files, place.2.size ≤ o.maxFileSize
  directories : ∀ place ∈ directories, place.2.size * Geometry.recordSize < UInt32.size
  counted : counted < UInt32.size
  data : data ≤ o.maxBlocks.toNat

section

variable {o : Options} {path : Path} {name : Bytes} {counted data : Nat}

/-- What comes first is within the limits when all is, because nothing is counted down. -/
theorem Options.Admits.append_iff {names names' : List Bytes} {files files' : List (Path × File)}
    {directories directories' : List (Path × Directory)} {counted' data' : Nat}
    (more : counted ≤ counted') (behind : data ≤ data') :
    o.Admits (names ++ names') (files ++ files') (directories ++ directories') counted' data'
      ↔ o.Admits names files directories counted data
        ∧ o.Admits names' files' directories' counted' data' := by
  constructor
  · intro all
    obtain ⟨name, name'⟩ := List.forall_mem_append.1 all.names
    obtain ⟨file, file'⟩ := List.forall_mem_append.1 all.files
    obtain ⟨directory, directory'⟩ := List.forall_mem_append.1 all.directories
    exact ⟨⟨name, file, directory, Nat.lt_of_le_of_lt more all.counted,
      Nat.le_trans behind all.data⟩, name', file', directory', all.counted, all.data⟩
  · rintro ⟨first, others⟩
    exact ⟨List.forall_mem_append.2 ⟨first.names, others.names⟩,
      List.forall_mem_append.2 ⟨first.files, others.files⟩,
      List.forall_mem_append.2 ⟨first.directories, others.directories⟩, others.counted,
      others.data⟩

/-! ## Single entries -/

theorem Name.refusal?_eq_none_iff : refusal? path name = none ↔ check name = .ok () := by
  unfold refusal?
  cases check name with
  | ok _ => exact ⟨fun _ => rfl, fun _ => rfl⟩
  | error e => exact ⟨nofun, nofun⟩

/-- A name that is not well-formed is refused as such, however long it is. -/
theorem Name.refusal?_eq_some_iff {e : RunError} :
    refusal? path name = some e ↔ (¬ wellFormed name ∧ e = .invalidName path)
      ∨ (wellFormed name ∧ Geometry.nameCapacity < name.length
        ∧ e = .nameTooLong path name.length Geometry.nameCapacity) := by
  unfold refusal? check
  cases formed : wellFormed name with
  | false => simp [RunError.ofName, eq_comm]
  | true =>
    by_cases short : name.length ≤ Geometry.nameCapacity
    · simp [short, Nat.not_lt.2 short]
    · simp [short, Nat.lt_of_not_le short, RunError.ofName, eq_comm]

/-- An entry has a place when its name, its number and its size are within the limits. -/
theorem Entry.refusal?_eq_none_iff {entry : Entry} :
    entry.refusal? o path name counted data = none ↔ Name.check name = .ok ()
      ∧ counted + 1 < UInt32.size ∧ entry.sizeRefusal? o path data = none := by
  simp only [Entry.refusal?, Option.or_eq_none_iff, Name.refusal?_eq_none_iff, ite_eq_right_iff,
    reduceCtorEq, imp_false, Nat.not_le]

/-- A file has a place when it is not larger than the options allow and its blocks end within the
image. -/
theorem Entry.sizeRefusal?_file_eq_none_iff {f : File} :
    (Entry.file f).sizeRefusal? o path data = none ↔ f.size ≤ o.maxFileSize
      ∧ data + Geometry.blocksFor f.size.toNat o.blockBytes ≤ o.maxBlocks.toNat := by
  simp only [Entry.sizeRefusal?]
  by_cases large : o.maxFileSize < f.size
  · rw [if_pos large]
    exact ⟨nofun, fun h => absurd large (UInt64.not_lt.2 h.1)⟩
  · rw [if_neg large, ite_eq_right_iff, ← Nat.not_lt]
    exact ⟨fun h => ⟨UInt64.not_lt.1 large, fun past => nomatch h past⟩,
      fun h past => absurd past h.2⟩

/-- A directory has a place when the size of its table has 32 bits. -/
theorem Entry.sizeRefusal?_directory_eq_none_iff {d : Directory} :
    (Entry.directory d).sizeRefusal? o path data = none
      ↔ d.size * Geometry.recordSize < UInt32.size := by
  simp only [Entry.sizeRefusal?, ite_eq_right_iff, reduceCtorEq, imp_false, Nat.not_le]

/-- A directory is refused for the size of its table, a file for its own size or for where its
blocks end. -/
theorem Entry.sizeRefusal?_eq_some_iff {entry : Entry} {e : RunError} :
    entry.sizeRefusal? o path data = some e
      ↔ (∃ d, entry = .directory d ∧ UInt32.size ≤ d.size * Geometry.recordSize
          ∧ e = .imageTooLarge path o.maxBlocks.toNat)
        ∨ (∃ f, entry = .file f ∧ o.maxFileSize < f.size
          ∧ e = .sourceTooLarge path f.size.toNat o.maxFileSize.toNat)
        ∨ ∃ f, entry = .file f ∧ f.size ≤ o.maxFileSize
          ∧ o.maxBlocks.toNat < data + Geometry.blocksFor f.size.toNat o.blockBytes
          ∧ e = .imageTooLarge path o.maxBlocks.toNat := by
  cases entry with
  | file f =>
    rw [sizeRefusal?]
    by_cases large : o.maxFileSize < f.size
    · simp [large, UInt64.not_le.2 large, eq_comm]
    · simp [large, UInt64.not_lt.1 large, eq_comm]
  | directory d => simp [sizeRefusal?, eq_comm]

/-- An entry above which nothing is refused has a place itself. -/
theorem Entry.refusal?_of_offence? {entry : Entry}
    (none : entry.offence? o path name counted data = none) :
    entry.refusal? o path name counted data = Option.none := by
  cases entry with
  | file f => exact none
  | directory d =>
    simp only [Entry.offence?, Option.or_eq_none_iff] at none
    exact none.1

/-! ## Whole trees -/

mutual

/-- Nothing below a directory is refused when everything below it is within the limits. -/
theorem Directory.offence?_eq_none_iff {path : Path} {counted data : Nat} (d : Directory)
    (few : counted < UInt32.size) (room : data ≤ o.maxBlocks.toNat) :
    d.offence? o path counted data = none
      ↔ o.Admits d.names (d.allFiles path) (d.entries.directories path) (counted + d.count)
        (data + d.dataBlocks o.blockBytes) := by
  cases d with
  | mk mtime entries => exact entries.offence?_eq_none_iff few room

theorem Entries.offence?_eq_none_iff {path : Path} {counted data : Nat} (entries : Entries)
    (few : counted < UInt32.size) (room : data ≤ o.maxBlocks.toNat) :
    entries.offence? o path counted data = none
      ↔ o.Admits entries.names (entries.allFiles path) (entries.directories path)
        (counted + entries.count) (data + entries.dataBlocks o.blockBytes) := by
  cases entries with
  | nil => exact ⟨fun _ => ⟨nofun, nofun, nofun, few, room⟩, fun _ => rfl⟩
  | cons name entry rest =>
    have split : o.Admits (name :: entry.names ++ rest.names)
        (entry.allFiles (Path.join path name) ++ rest.allFiles path)
        (entry.directories (Path.join path name) ++ rest.directories path) _ _ ↔ _ :=
      Options.Admits.append_iff (Nat.le_add_right (counted + entry.count) rest.count)
        (Nat.le_add_right (data + entry.dataBlocks o.blockBytes) (rest.dataBlocks o.blockBytes))
    simp only [Entries.count, Entries.dataBlocks, ← Nat.add_assoc]
    rw [Entries.offence?, Option.or_eq_none_iff, entry.offence?_eq_none_iff room]
    refine Iff.trans ?_ split.symm
    exact and_congr_right fun first => rest.offence?_eq_none_iff first.counted first.data

theorem Entry.offence?_eq_none_iff {path : Path} {name : Bytes} {counted data : Nat}
    (entry : Entry) (room : data ≤ o.maxBlocks.toNat) :
    entry.offence? o path name counted data = none
      ↔ o.Admits (name :: entry.names) (entry.allFiles path) (entry.directories path)
        (counted + entry.count) (data + entry.dataBlocks o.blockBytes) := by
  cases entry with
  | file f =>
    rw [Entry.offence?, Entry.refusal?_eq_none_iff, Entry.sizeRefusal?_file_eq_none_iff]
    constructor
    · rintro ⟨checked, more, small, fits⟩
      exact ⟨List.forall_mem_singleton.2 checked, List.forall_mem_singleton.2 small, nofun, more,
        fits⟩
    · intro h
      exact ⟨h.names _ List.mem_cons_self, h.counted, h.files _ List.mem_cons_self, h.data⟩
  | directory d =>
    -- The directory itself, and then everything below it.
    have own : (Entry.directory d).refusal? o path name counted data = none
        ↔ o.Admits [name] [] [(path, d)] (counted + 1) data := by
      rw [Entry.refusal?_eq_none_iff, Entry.sizeRefusal?_directory_eq_none_iff]
      constructor
      · rintro ⟨checked, more, small⟩
        exact ⟨List.forall_mem_singleton.2 checked, nofun, List.forall_mem_singleton.2 small, more,
          room⟩
      · intro h
        exact ⟨h.names _ List.mem_cons_self, h.counted, h.directories (path, d) List.mem_cons_self⟩
    have split : o.Admits ([name] ++ d.names) ([] ++ d.allFiles path)
        ([(path, d)] ++ d.entries.directories path) _ _ ↔ _ :=
      Options.Admits.append_iff (Nat.le_add_right (counted + 1) d.count)
        (Nat.le_add_right data (d.dataBlocks o.blockBytes))
    simp only [Entry.count, Entry.dataBlocks, ← Nat.add_assoc]
    rw [Entry.offence?, Option.or_eq_none_iff, own, Entry.directories, d.directories_eq path]
    refine Iff.trans ?_ split.symm
    exact and_congr_right fun first => d.offence?_eq_none_iff first.counted room

end

end

end FlatImage
