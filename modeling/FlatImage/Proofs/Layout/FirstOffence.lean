import FlatImage.Proofs.Layout.Admission

/-!
# The first offender

Planning stops at one entry, and its error names that entry. Which one it is, is said here of the
list of all entries of a tree in pre-order: an entry offends when one of its checks fails, with as
many entries and data blocks before it as the part of the list in front of it has, and planning
stops at the first that offends. Only the tables are counted before, so a tree with too many of
them is refused at its root.
-/

namespace FlatImage

/-- An entry where it stands in a tree: its path, and the name that the path ends with. -/
structure Occurrence where
  path : Path
  name : Bytes
  entry : Entry

/-! ## All entries in pre-order -/

mutual

/-- All entries below a directory in pre-order, with their paths. Those of one directory stand in
its own order, which in an ordered tree is the byte order of their names. -/
def Directory.occurrences (path : Path) : Directory → List Occurrence
  | .mk _ entries => entries.occurrences path

def Entries.occurrences (path : Path) : Entries → List Occurrence
  | .nil => []
  | .cons name entry rest => entry.occurrences (Path.join path name) name ++ rest.occurrences path

def Entry.occurrences (path : Path) (name : Bytes) : Entry → List Occurrence
  | .file f => [⟨path, name, .file f⟩]
  | .directory d => ⟨path, name, .directory d⟩ :: d.occurrences path

end

namespace Occurrence

/-- The blocks of a file's content. A directory has no content. -/
def blocks (blockSize : Nat) (v : Occurrence) : Nat :=
  match v.entry with
  | .file f => Geometry.blocksFor f.size.toNat blockSize
  | .directory _ => 0

/-- The blocks of the contents of all files among some entries. -/
def sumBlocks (blockSize : Nat) (occurrences : List Occurrence) : Nat :=
  (occurrences.map (blocks blockSize)).sum

/-- An entry offends with an error, when the contents of files start at block `start` and these
entries come before it. A check counts only when those in front of it are passed. -/
inductive Offends (o : Options) (start : Nat) (before : List Occurrence) (v : Occurrence) :
    RunError → Prop
  | malformed (formed : ¬ Name.wellFormed v.name) :
    Offends o start before v (.invalidName v.path)
  | long (formed : Name.wellFormed v.name) (long : Geometry.nameCapacity < v.name.length) :
    Offends o start before v (.nameTooLong v.path v.name.length Geometry.nameCapacity)
  | uncounted (checked : Name.check v.name = .ok ()) (many : UInt32.size ≤ before.length + 1) :
    Offends o start before v (.imageTooLarge v.path o.maxBlocks.toNat)
  | wide {d : Directory} (checked : Name.check v.name = .ok ())
    (counted : before.length + 1 < UInt32.size) (is : v.entry = .directory d)
    (wide : UInt32.size ≤ d.size * Geometry.recordSize) :
    Offends o start before v (.imageTooLarge v.path o.maxBlocks.toNat)
  | large {f : File} (checked : Name.check v.name = .ok ())
    (counted : before.length + 1 < UInt32.size) (is : v.entry = .file f)
    (large : o.maxFileSize < f.size) :
    Offends o start before v (.sourceTooLarge v.path f.size.toNat o.maxFileSize.toNat)
  | past {f : File} (checked : Name.check v.name = .ok ())
    (counted : before.length + 1 < UInt32.size) (is : v.entry = .file f)
    (small : f.size ≤ o.maxFileSize)
    (past : o.maxBlocks.toNat < start + sumBlocks o.blockBytes (before ++ [v])) :
    Offends o start before v (.imageTooLarge v.path o.maxBlocks.toNat)

/-- The error is that of the first entry of a list that offends. -/
def FirstOffence (o : Options) (start : Nat) (occurrences : List Occurrence) (e : RunError) :
    Prop :=
  ∃ before v after, occurrences = before ++ v :: after ∧ v.Offends o start before e
    ∧ ∀ front w back, before = front ++ w :: back → ∀ e, ¬ w.Offends o start front e

variable {o : Options} {start : Nat} {before : List Occurrence} {v : Occurrence} {e : RunError}

theorem sumBlocks_append (blockSize : Nat) (front back : List Occurrence) :
    sumBlocks blockSize (front ++ back) = sumBlocks blockSize front + sumBlocks blockSize back := by
  simp only [sumBlocks, List.map_append, List.sum_append]

@[simp] theorem sumBlocks_singleton (blockSize : Nat) (v : Occurrence) :
    sumBlocks blockSize [v] = v.blocks blockSize := Nat.add_zero _

end Occurrence

mutual

theorem Directory.length_occurrences (path : Path) (d : Directory) :
    (d.occurrences path).length = d.count := by
  cases d with
  | mk mtime entries => exact entries.length_occurrences path

theorem Entries.length_occurrences (path : Path) (entries : Entries) :
    (entries.occurrences path).length = entries.count := by
  cases entries with
  | nil => rfl
  | cons name entry rest =>
    rw [Entries.occurrences, List.length_append, entry.length_occurrences,
      rest.length_occurrences, Entries.count]

theorem Entry.length_occurrences (path : Path) (name : Bytes) (entry : Entry) :
    (entry.occurrences path name).length = entry.count := by
  cases entry with
  | file f => rfl
  | directory d =>
    rw [Entry.occurrences, List.length_cons, d.length_occurrences, Entry.count, Nat.add_comm]

end

mutual

theorem Directory.sumBlocks_occurrences (blockSize : Nat) (path : Path) (d : Directory) :
    Occurrence.sumBlocks blockSize (d.occurrences path) = d.dataBlocks blockSize := by
  cases d with
  | mk mtime entries => exact entries.sumBlocks_occurrences blockSize path

theorem Entries.sumBlocks_occurrences (blockSize : Nat) (path : Path) (entries : Entries) :
    Occurrence.sumBlocks blockSize (entries.occurrences path) = entries.dataBlocks blockSize := by
  cases entries with
  | nil => rfl
  | cons name entry rest =>
    rw [Entries.occurrences, Occurrence.sumBlocks_append, entry.sumBlocks_occurrences,
      rest.sumBlocks_occurrences, Entries.dataBlocks]

theorem Entry.sumBlocks_occurrences (blockSize : Nat) (path : Path) (name : Bytes) (entry : Entry) :
    Occurrence.sumBlocks blockSize (entry.occurrences path name) = entry.dataBlocks blockSize := by
  cases entry with
  | file f => exact Occurrence.sumBlocks_singleton ..
  | directory d => exact (Nat.zero_add _).trans (d.sumBlocks_occurrences blockSize path)

end

/-! ## The check of one entry -/

namespace Occurrence

variable {o : Options} {start : Nat} {before : List Occurrence} {v : Occurrence} {e : RunError}

/-- The refusal of an entry that comes after others. -/
def refusal? (o : Options) (start : Nat) (before : List Occurrence) (v : Occurrence) :
    Option RunError :=
  v.entry.refusal? o v.path v.name before.length (start + sumBlocks o.blockBytes before)

theorem refusal?_eq_some_iff : v.refusal? o start before = some e ↔ v.Offends o start before e := by
  have number : (if UInt32.size ≤ before.length + 1 then
      some (RunError.imageTooLarge v.path o.maxBlocks.toNat) else none) = some e
      ↔ UInt32.size ≤ before.length + 1 ∧ e = .imageTooLarge v.path o.maxBlocks.toNat := by
    simp [eq_comm]
  simp only [refusal?, Entry.refusal?, Option.or_eq_some_iff, Name.refusal?_eq_some_iff,
    Name.refusal?_eq_none_iff, number, Entry.sizeRefusal?_eq_some_iff, ite_eq_right_iff,
    reduceCtorEq, imp_false, Nat.not_le]
  constructor
  · rintro ((⟨formed, rfl⟩ | ⟨formed, long, rfl⟩) | ⟨checked, ⟨many, rfl⟩ | ⟨counted, size⟩⟩)
    · exact .malformed formed
    · exact .long formed long
    · exact .uncounted checked many
    · obtain ⟨d, is, wide, rfl⟩ | ⟨f, is, large, rfl⟩ | ⟨f, is, small, past, rfl⟩ := size
      · exact .wide checked counted is wide
      · exact .large checked counted is large
      · refine .past checked counted is small ?_
        rwa [sumBlocks_append, sumBlocks_singleton, blocks, is, ← Nat.add_assoc]
  · rintro (formed | ⟨formed, long⟩ | ⟨checked, many⟩ | ⟨checked, counted, is, wide⟩
      | ⟨checked, counted, is, large⟩ | ⟨checked, counted, is, small, past⟩)
    · exact .inl (.inl ⟨formed, rfl⟩)
    · exact .inl (.inr ⟨formed, long, rfl⟩)
    · exact .inr ⟨checked, .inl ⟨many, rfl⟩⟩
    · exact .inr ⟨checked, .inr ⟨counted, .inl ⟨_, is, wide, rfl⟩⟩⟩
    · exact .inr ⟨checked, .inr ⟨counted, .inr (.inl ⟨_, is, large, rfl⟩)⟩⟩
    · rw [sumBlocks_append, sumBlocks_singleton, blocks, is, ← Nat.add_assoc] at past
      exact .inr ⟨checked, .inr ⟨counted, .inr (.inr ⟨_, is, small, past, rfl⟩)⟩⟩

theorem refusal?_eq_none_iff :
    v.refusal? o start before = none ↔ ∀ e, ¬ v.Offends o start before e := by
  simp only [Option.eq_none_iff_forall_ne_some, ne_eq, refusal?_eq_some_iff]

/-! ## The first refusal along a list -/

/-- The first refusal among entries that come after others. -/
def first? (o : Options) (start : Nat) (before : List Occurrence) :
    List Occurrence → Option RunError
  | [] => none
  | v :: later => (v.refusal? o start before).or (first? o start (before ++ [v]) later)

theorem first?_append (before front back : List Occurrence) :
    first? o start before (front ++ back)
      = (first? o start before front).or (first? o start (before ++ front) back) := by
  induction front generalizing before with
  | nil => rw [List.append_nil]; rfl
  | cons v front ih =>
    rw [List.cons_append, first?, first?, ih, Option.or_assoc, List.append_assoc,
      List.singleton_append]

/-- The first refusal is that of an entry that offends, and none before it does. -/
theorem first?_eq_some_iff (before occurrences : List Occurrence) :
    first? o start before occurrences = some e ↔ ∃ passed v after,
      occurrences = passed ++ v :: after ∧ v.Offends o start (before ++ passed) e
      ∧ ∀ front w back, passed = front ++ w :: back →
        ∀ e, ¬ w.Offends o start (before ++ front) e := by
  induction occurrences generalizing before with
  | nil => simp [first?]
  | cons v later ih =>
    rw [first?, Option.or_eq_some_iff, refusal?_eq_some_iff, refusal?_eq_none_iff, ih]
    constructor
    · rintro (offends | ⟨passes, passed, w, after, rfl, offends, none⟩)
      · refine ⟨[], v, later, rfl, by rwa [List.append_nil], ?_⟩
        rintro front w back is
        cases front <;> cases is
      · refine ⟨v :: passed, w, after, rfl, by simpa using offends, ?_⟩
        rintro front x back is
        cases front with
        | nil =>
          obtain ⟨rfl, _⟩ := List.cons.inj is
          rwa [List.append_nil]
        | cons _ front =>
          obtain ⟨rfl, behind⟩ := List.cons.inj is
          simpa using none front x back behind
    · rintro ⟨passed, w, after, is, offends, none⟩
      cases passed with
      | nil =>
        obtain ⟨rfl, _⟩ := List.cons.inj is
        exact .inl (by rwa [List.append_nil] at offends)
      | cons u passed =>
        obtain ⟨rfl, rfl⟩ := List.cons.inj is
        refine .inr ⟨by simpa using none [] v passed rfl, passed, w, after, rfl,
          by simpa using offends, ?_⟩
        rintro front x back rfl
        simpa using none (v :: front) x back rfl

end Occurrence

/-! ## Planning stops at the first offender -/

section

variable {o : Options} {start : Nat}

mutual

theorem Directory.offence?_eq_first? (path : Path) (before : List Occurrence) (d : Directory) :
    d.offence? o path before.length (start + Occurrence.sumBlocks o.blockBytes before)
      = Occurrence.first? o start before (d.occurrences path) := by
  cases d with
  | mk mtime entries => exact entries.offence?_eq_first? path before

theorem Entries.offence?_eq_first? (path : Path) (before : List Occurrence) (entries : Entries) :
    entries.offence? o path before.length (start + Occurrence.sumBlocks o.blockBytes before)
      = Occurrence.first? o start before (entries.occurrences path) := by
  cases entries with
  | nil => rfl
  | cons name entry rest =>
    have others := rest.offence?_eq_first? path
      (before ++ entry.occurrences (Path.join path name) name)
    rw [List.length_append, entry.length_occurrences, Occurrence.sumBlocks_append,
      entry.sumBlocks_occurrences, ← Nat.add_assoc] at others
    rw [Entries.offence?, Entries.occurrences, Occurrence.first?_append,
      entry.offence?_eq_first?, others]

theorem Entry.offence?_eq_first? (path : Path) (name : Bytes) (before : List Occurrence)
    (entry : Entry) :
    entry.offence? o path name before.length (start + Occurrence.sumBlocks o.blockBytes before)
      = Occurrence.first? o start before (entry.occurrences path name) := by
  cases entry with
  | file f =>
    rw [Entry.occurrences, Occurrence.first?, Occurrence.first?, Option.or_none]
    rfl
  | directory d =>
    have inside := d.offence?_eq_first? path (before ++ [⟨path, name, .directory d⟩])
    rw [List.length_append, Occurrence.sumBlocks_append, Occurrence.sumBlocks_singleton] at inside
    rw [Entry.offence?, Entry.occurrences, Occurrence.first?, ← inside]
    rfl

end

end

/-- Under valid options planning fails in two ways: at the root when there is no room for all
tables, and otherwise with the error of the first entry that offends. -/
theorem Layout.plan_eq_error_iff {o : Options} (valid : o.validate = .ok ()) (root : Directory)
    (fault : Fault RunError) : plan root o = .error fault
      ↔ (o.maxBlocks.toNat < 1 + Directory.sumTables o.blockBytes (root.directories rootPath)
          ∧ fault = .error (.imageTooLarge rootPath o.maxBlocks.toNat))
        ∨ (1 + Directory.sumTables o.blockBytes (root.directories rootPath) ≤ o.maxBlocks.toNat
          ∧ ∃ e, fault = .error e ∧ Occurrence.FirstOffence o
            (1 + Directory.sumTables o.blockBytes (root.directories rootPath))
            (root.occurrences rootPath) e) := by
  have first : ∀ e, Occurrence.FirstOffence o (root.dataStart o) (root.occurrences rootPath) e
      ↔ root.offence? o rootPath 0 (root.dataStart o) = some e := fun e => by
    have along : root.offence? o rootPath 0 (root.dataStart o)
        = Occurrence.first? o (root.dataStart o) [] (root.occurrences rootPath) :=
      root.offence?_eq_first? rootPath []
    rw [along]
    exact (Occurrence.first?_eq_some_iff [] (root.occurrences rootPath)).symm
  have start : 1 + Directory.sumTables o.blockBytes (root.directories rootPath)
      = root.dataStart o := by
    rw [root.sumTables_directories, Directory.dataStart]
  rw [start, Directory.plan_eq, Directory.refusal?, valid]
  simp only [first]
  by_cases past : o.maxBlocks.toNat < root.dataStart o
  · simp [past, Nat.not_le.2 past, eq_comm]
  · cases root.offence? o rootPath 0 (root.dataStart o) with
    | none => simp [past]
    | some e => simp [past, Nat.le_of_not_lt past, eq_comm]

/-- A directory with a file of two blocks, a file of one block, and a file whose name is refused. -/
def Directory.crowded : Directory :=
  .mk 0 (.cons [0x61] (.directory (.mk 0 (.cons [0x78] (.file ⟨0, 600, .host [0x78]⟩) .nil)))
    (.cons [0x62] (.file ⟨0, 3, .host [0x62]⟩)
      (.cons [0x63, 0] (.file ⟨0, 3, .host [0x63]⟩) .nil)))

/-- Where five blocks are the limit, the block of the file `/b` is the first without room, and that
the name after it is not accepted is not seen. -/
theorem Layout.plan_eq_error_iff_crowded : plan .crowded { maxBlocks := 5 }
    = .error (.error (.imageTooLarge [0x2f, 0x62] 5)) := by
  refine (plan_eq_error_iff rfl .crowded _).2
    (.inr ⟨by decide, _, rfl, [_, _], _, [_], rfl, ?_, ?_⟩)
  · exact .past rfl (by decide) rfl (by decide) (by decide)
  · intro front w back is
    refine Occurrence.refusal?_eq_none_iff.1 ?_
    match front with
    | [] => cases is; decide
    | [_] => cases is; decide
    | _ :: _ :: _ => simp at is

end FlatImage
