import FlatImage.Proofs.Host.Growth
import FlatImage.Proofs.Settled
import Mathlib.Data.List.Nodup
import Mathlib.Data.List.Perm.Subperm

/-!
# A replaced file is whole

A run that compiles a tree into the file at a path makes two entries on its way, a lock and a
temporary file. Whatever is refused, and wherever the run stops, only the lock can be left. A run
that succeeds leaves one more change: the destination's name stands for a regular file that holds
the image of the tree.

The four changes of the destination's directory are followed as one change of its entries, so that
the temporary file is seen to be gone without a word about the order of entries.
-/

namespace FlatImage.Host

open FlatImage (Directory)

/-! ## Temporary names -/

theorem temporaryName_injective {m n : Nat} (same : temporaryName m = temporaryName n) : m = n := by
  unfold temporaryName Bytes.ofString at same
  have text := String.toByteArray_inj.1 (ByteArray.ext (Array.ext' same))
  have digits : m.repr = n.repr := by simpa [toString, String.append_right_inj] using text
  have value (n : Nat) : Nat.ofDigitChars 10 n.repr.toList 0 = n := by
    rw [Nat.repr, String.toList_ofList, Nat.ofDigitChars_ten_toDigits]
  rw [← value m, digits, value n]

theorem Nodes.mem_of_find? {name : Bytes} {entries : Nodes} (found : (entries.find? name).isSome) :
    name ∈ entries.toList.map Prod.fst := by
  match entries with
  | nil => cases found
  | cons other node rest =>
    by_cases is : other = name
    · exact is ▸ List.mem_cons_self
    · rw [find?, if_neg is] at found
      exact List.mem_cons_of_mem _ (mem_of_find? found)

/-- Either a free number is found, or none of those that are tried is free. -/
theorem freeNumber_or (entries : Nodes) (n left : Nat) :
    entries.find? (temporaryName (freeNumber entries n left)) = none
      ∨ ∀ i < left, (entries.find? (temporaryName (n + i))).isSome := by
  induction left generalizing n with
  | zero => exact .inr nofun
  | succ left ih =>
    rw [freeNumber]
    by_cases taken : (entries.find? (temporaryName n)).isSome
    · rw [if_pos taken]
      obtain free | all := ih (n + 1)
      · exact .inl free
      · refine .inr fun i small => ?_
        cases i with
        | zero => exact taken
        | succ i =>
          rw [Nat.add_comm i 1, ← Nat.add_assoc]
          exact all i (Nat.lt_of_succ_lt_succ small)
    · rw [if_neg taken]
      exact .inl (Option.not_isSome_iff_eq_none.1 taken)

/-- The name of the temporary file is free: there is one name more than there are entries. -/
theorem find?_freeName (entries : Nodes) : entries.find? (freeName entries) = none := by
  obtain free | all := freeNumber_or entries 0 (entries.toList.length + 1)
  · exact free
  -- Otherwise the names that were tried are all among the entries.
  have distinct : ((List.range (entries.toList.length + 1)).map temporaryName).Nodup :=
    (List.nodup_range).map fun m n => temporaryName_injective
  have inside : (List.range (entries.toList.length + 1)).map temporaryName
      ⊆ entries.toList.map Prod.fst := by
    intro name mem
    obtain ⟨i, tried, rfl⟩ := List.mem_map.1 mem
    have found := all i (List.mem_range.1 tried)
    rw [Nat.zero_add] at found
    exact Nodes.mem_of_find? found
  have few := (List.subperm_of_subset distinct inside).length_le
  simp only [List.length_map, List.length_range] at few
  omega

/-! ## The lock -/

theorem mem_segments_of_normal {path : Path} {name : Bytes}
    (mem : .normal name ∈ Path.components path) : name ∈ Path.segments path := by
  have of_segment {s : Bytes} (is : Path.Component.ofSegment? s = some (.normal name)) :
      s = name := by
    unfold Path.Component.ofSegment? at is
    split at is
    · cases is
    · split at is
      · cases is
      · cases is
        rfl
  unfold Path.components at mem
  split at mem
  · cases mem
  · next first others cut =>
    rw [cut]
    obtain start | later := List.mem_append.1 mem
    · refine List.mem_cons.2 (.inl ?_)
      split at start
      · cases List.mem_singleton.1 start
      · split at start
        · cases List.mem_singleton.1 start
        · exact (of_segment (Option.mem_toList.1 start)).symm
    · obtain ⟨s, inside, is⟩ := List.mem_filterMap.1 later
      exact List.mem_cons_of_mem _ (of_segment is ▸ inside)

theorem slash_notMem_of_fileName? {dest : Path} {name : Bytes}
    (named : Path.fileName? dest = some name) : Bytes.slash ∉ name := by
  unfold Path.fileName? at named
  split at named
  · next last =>
    obtain rfl := Option.some.inj named
    exact Path.slash_notMem_of_mem_segments
      (mem_segments_of_normal (List.mem_of_getLast? last))
  · cases named

section

variable {h h' : Host} {dest : Path} {name : Bytes}

theorem lockName_eq (name : Bytes) :
    lockName name = Bytes.dot :: (name ++ [0x2E, 0x6C, 0x6F, 0x63, 0x6B]) := rfl

/-- The lock's name is none of the names that are shorter, the destination's own among them. -/
theorem lockName_ne {name other : Bytes} (shorter : other.length < name.length + 6) :
    lockName name ≠ other := by
  rintro rfl
  simp [lockName_eq] at shorter

theorem outputDirectory_ne_nil (dest : Path) : outputDirectory dest ≠ [] := by
  unfold outputDirectory
  split
  · exact nofun
  · exact nofun
  · next some _ => exact fun none => some none

theorem slash_notMem_lockName (noSlash : Bytes.slash ∉ name) : Bytes.slash ∉ lockName name := by
  simpa [lockName_eq, Bytes.slash, Bytes.dot] using noSlash

/-- One name that is free is free in the directory where it is looked for. -/
theorem free_of_follow {links : Nat} {here dir : Location} {segment missing : Bytes}
    (some : segment ≠ []) (here_ne : segment ≠ Name.current) (up : segment ≠ Name.parent)
    (free : h.follow false links [segment] here = .ok (.free dir missing)) :
    dir = here ∧ missing = segment ∧ h.entry? here segment = none := by
  rw [follow, if_neg (not_or.2 ⟨some, here_ne⟩), if_neg up] at free
  split at free
  · cases free
  · split at free
    · next none =>
      cases free
      exact ⟨rfl, rfl, none⟩
    · rw [follow] at free
      split at free <;> cases free
    · cases free
    · cases free

/-- A lock that is missing is missing in the directory of the destination. -/
theorem free_of_lockPath {dir : Location} {missing : Bytes} (noSlash : Bytes.slash ∉ name)
    (noZero : hasZero (lockPath dest name) = false)
    (free : h.resolve (lockPath dest name) false = .ok (.free dir missing))
    (is : h.IsDirectory dir) : missing = lockName name ∧ h.entry? dir (lockName name) = none
      ∧ h.openDirectory (outputDirectory dest) true = .ok dir := by
  have some := outputDirectory_ne_nil dest
  have relative : Path.isAbsolute (lockName name) = false := rfl
  have one := Path.segments_of_notMem (slash_notMem_lockName noSlash)
  obtain ⟨_, short, found⟩ := resolve_eq_ok_iff.1 free
  have start : h.origin (lockPath dest name) = h.origin (outputDirectory dest) := by
    rw [origin, origin, lockPath, Path.isAbsolute_join some relative]
  rw [start, lockPath, follow_join some relative, one] at found
  obtain ⟨left, at_dir, through⟩ | ⟨⟨e, lost⟩, _⟩ :=
    h.follow_append mostLinks (Path.segments (outputDirectory dest))
      (h.origin (outputDirectory dest))
  · rw [through false _ (.inl (List.cons_ne_nil _ _))] at found
    obtain ⟨rfl, rfl, new⟩ := free_of_follow (lockName_ne (by simp))
      (lockName_ne (by simp [Name.current])) (lockName_ne (by simp [Name.parent])) found
    obtain ⟨mtime, entries, there⟩ := isDirectory_iff.1 is
    have whole := through true [] (.inr rfl)
    rw [List.append_nil, follow, there] at whole
    rw [lockPath, hasZero_join _ relative, Bool.or_eq_false_iff] at noZero
    have shorter : (outputDirectory dest).length ≤ (lockPath dest name).length := by
      obtain joined | joined := Path.join_eq (outputDirectory dest) relative
      · simp [lockPath, joined]
      · simp [lockPath, joined]
    refine ⟨rfl, new, openDirectory_eq_ok_iff.2 ⟨noZero.1, mtime, entries, ?_⟩⟩
    exact lookup_eq_ok_iff.2 (resolve_eq_ok_iff.2 ⟨some, Nat.lt_of_le_of_lt shorter short, whole⟩)
  · rw [lost false _ (List.cons_ne_nil _ _)] at found
    cases found

/-- The lock is there, or has been made as an empty file in the directory of the
destination. -/
def Locks (h : Host) (dest : Path) (name : Bytes) (h₁ : Host) : Prop :=
  h₁ = h ∨ ∃ dir, h.openDirectory (outputDirectory dest) true = .ok dir
    ∧ h.entry? dir (lockName name) = none
    ∧ h₁ = h.add dir (lockName name) (h.freshFile (.hole 0))

theorem openLock_eq_ok {held : Bool} (noSlash : Bytes.slash ∉ name)
    (opened : h.openLock (lockPath dest name) = .ok (held, h')) : Locks h dest name h' := by
  unfold openLock at opened
  split at opened
  · cases opened
  · next noZero =>
    split at opened
    · cases opened
    · next dir missing free =>
      obtain rfl := (Prod.mk.inj (Except.ok.inj opened)).2
      by_cases is : h.IsDirectory dir
      · obtain ⟨rfl, new, dirOpened⟩ :=
          free_of_lockPath noSlash (Bool.eq_false_iff.2 noZero) free is
        exact .inr ⟨dir, dirOpened, new, rfl⟩
      · exact .inl (edit_of_not_isDirectory _ is)
    · exact .inl (Prod.mk.inj (Except.ok.inj opened)).2.symm
    · exact .inl (Prod.mk.inj (Except.ok.inj opened)).2.symm
    · cases opened
    · cases opened
    · cases opened

end

/-! ## What a run leaves -/

/-- The directory and the name of the file that a run replaces. -/
structure Target (h : Host) (dest : Path) (dir : Location) (name : Bytes) : Prop where
  named : Path.fileName? dest = some name
  opened : h.openDirectory (outputDirectory dest) true = .ok dir

/-- What a run may change that replaces the file called `name` of a directory, but for that file
itself: the directory may be stamped, and an empty lock file may be new. -/
structure Beside (h h' : Host) (dir : Location) (name : Bytes) : Prop where
  directory : h'.IsDirectory dir
  lock : h'.view (dir ++ [lockName name]) = h.view (dir ++ [lockName name])
    ∨ h.view (dir ++ [lockName name]) = none
      ∧ h'.view (dir ++ [lockName name]) = some (.file ⟨.hole 0, h.now, false⟩)
  others : ∀ loc, loc ≠ dir → loc ≠ dir ++ [lockName name] → loc ≠ dir ++ [name] →
    h'.view loc = h.view loc

section

variable {h h' h₁ : Host} {dest : Path} {dir : Location} {name old : Bytes} {mtime : Int64}
variable {entries : Nodes} {f : Nodes → Nodes} {file file' : Node}

/-- There is no directory of this name. -/
def Nodes.NoDirectory (entries : Nodes) (name : Bytes) : Prop :=
  ∀ mtime inner, entries.find? name ≠ some (.directory mtime inner)

theorem view_entry (is : h.at? dir = some (.directory mtime entries)) (name : Bytes) :
    h.view (dir ++ [name]) = (entries.find? name).map Node.shell :=
  congrArg (Option.map Node.shell) (entry?_eq is name)

/-- Below a name that no directory has nothing stands. -/
theorem view_below_of_noDirectory (is : h.at? dir = some (.directory mtime entries))
    (leaf : entries.NoDirectory name) (first : Bytes) (rest : Location) :
    h.view (dir ++ name :: first :: rest) = none := by
  rw [view_eq_none_iff, at?_append, is]
  simp only [Option.bind_some, Node.at?]
  cases found : entries.find? name with
  | none => rfl
  | some node =>
    cases node with
    | directory mtime inner => exact absurd found (leaf mtime inner)
    | _ => rfl

/-- An entry that keeps its node keeps all that is below it. -/
theorem view_edit_entry (is : h.at? dir = some (.directory mtime entries))
    (same : (f entries).find? name = entries.find? name) (rest : Location) :
    (h.edit dir f).view (dir ++ name :: rest) = h.view (dir ++ name :: rest) := by
  refine view_edit_of_ne is (by simp) ?_
  intro other below at_other
  obtain ⟨rfl, -⟩ := List.cons.inj (List.append_cancel_left at_other)
  exact same

/-- Below an entry that is no directory, before and after, nothing changes. -/
theorem view_edit_below (is : h.at? dir = some (.directory mtime entries))
    (kept : (f entries).find? name = entries.find? name
      ∨ entries.NoDirectory name ∧ (f entries).NoDirectory name) (first : Bytes) (rest : Location) :
    (h.edit dir f).view (dir ++ name :: first :: rest) = h.view (dir ++ name :: first :: rest) := by
  obtain same | ⟨was, leaf⟩ := kept
  · exact view_edit_entry is same _
  · rw [view_below_of_noDirectory is was, view_below_of_noDirectory (at?_edit_self f is) leaf]

/-- A change of the entries of a directory that concerns the lock and the replaced file. -/
theorem beside_edit (is : h.at? dir = some (.directory mtime entries))
    (lock : (f entries).find? (lockName name) = entries.find? (lockName name)
      ∨ entries.find? (lockName name) = none
        ∧ (f entries).find? (lockName name) = some (.file ⟨.hole 0, h.now, false⟩))
    (own : (f entries).find? name = entries.find? name
      ∨ entries.NoDirectory name ∧ (f entries).NoDirectory name)
    (others : ∀ other, other ≠ lockName name → other ≠ name →
      (f entries).find? other = entries.find? other) : Beside h (h.edit dir f) dir name where
  directory := ⟨_, view_edit_self f is⟩
  lock := by
    rw [view_entry is, view_entry (at?_edit_self f is)]
    obtain same | ⟨none, new⟩ := lock
    · exact .inl (congrArg _ same)
    · rw [none, new]
      exact .inr ⟨rfl, rfl⟩
  others loc ne ne_lock ne_name := by
    by_cases inside : dir <+: loc
    · obtain ⟨below, rfl⟩ := inside
      cases below with
      | nil => exact absurd (List.append_nil dir) ne
      | cons other rest =>
        by_cases is_lock : other = lockName name
        · subst is_lock
          have kept : (f entries).find? (lockName name) = entries.find? (lockName name)
              ∨ entries.NoDirectory (lockName name) ∧ (f entries).NoDirectory (lockName name) := by
            refine lock.imp_right fun ⟨missing, new⟩ => ⟨?_, ?_⟩
            · intro mtime inner found
              cases missing.symm.trans found
            · intro mtime inner found
              cases new.symm.trans found
          cases rest with
          | nil => exact absurd rfl ne_lock
          | cons first rest => exact view_edit_below is kept first rest
        by_cases is_name : other = name
        · subst is_name
          cases rest with
          | nil => exact absurd rfl ne_name
          | cons first rest => exact view_edit_below is own first rest
        exact view_edit_entry is (others other is_lock is_name) rest
    · exact view_update_of_not_prefix _ inside

theorem rename_eq_ok (renamed : h.rename dir old name dest = .ok h') :
    ∃ node, h.entry? dir old = some node
      ∧ (∀ mtime inner, h.entry? dir name ≠ some (.directory mtime inner))
      ∧ h' = (h.remove dir old).put dir name node := by
  unfold rename at renamed
  split at renamed
  · cases renamed
  · split at renamed
    · cases renamed
    · cases renamed
    · next node found noDirectory =>
      cases renamed
      exact ⟨node, found, noDirectory, rfl⟩

/-! ## The run -/

/-- What the lock has done to the entries of a directory: nothing, or it is new. -/
structure LockEdit (now : Int64) (name : Bytes) (lock : Nodes → Nodes) (entries : Nodes) :
    Prop where
  own : (lock entries).find? (lockName name) = entries.find? (lockName name)
    ∨ entries.find? (lockName name) = none
      ∧ (lock entries).find? (lockName name) = some (.file ⟨.hole 0, now, false⟩)
  others : ∀ other, other ≠ lockName name → (lock entries).find? other = entries.find? other

theorem LockEdit.cons (new : entries.find? (lockName name) = none) :
    LockEdit h.now name (.cons (lockName name) (h.freshFile (.hole 0))) entries where
  own := by
    refine .inr ⟨new, ?_⟩
    rw [Nodes.find?, if_pos rfl]
    rfl
  others other ne := by rw [Nodes.find?, if_neg (Ne.symm ne)]

theorem Locks.grown (locked : Locks h dest name h₁) : h.Grown h₁ := by
  obtain rfl | ⟨dir, opened, new, rfl⟩ := locked
  · exact .refl h₁
  · exact .add new (isDirectory_of_openDirectory opened) rfl

/-- How the host goes on with its lock. -/
theorem Locks.edit (locked : Locks h dest name h₁) (target : Target h dest dir name)
    (is : h.at? dir = some (.directory mtime entries)) :
    ∃ lock, LockEdit h.now name lock entries
      ∧ (∃ mtime, h₁.at? dir = some (.directory mtime (lock entries)))
      ∧ ∀ f, h₁.edit dir f = h.edit dir (f ∘ lock) := by
  obtain rfl | ⟨other, opened, new, rfl⟩ := locked
  · exact ⟨id, ⟨.inl rfl, fun _ _ => rfl⟩, ⟨mtime, is⟩, fun _ => rfl⟩
  · obtain rfl := Except.ok.inj (target.opened.symm.trans opened)
    exact ⟨.cons (lockName name) (h.freshFile (.hole 0)),
      .cons ((entry?_eq is _).symm.trans new), ⟨_, at?_edit_self _ is⟩, fun f => edit_edit ..⟩

/-- A run that failed has changed nothing, or nothing but what is beside the file. -/
def Unreplaced (h h' : Host) (dest : Path) : Prop :=
  h' = h ∨ ∃ dir name, Target h dest dir name ∧ Beside h h' dir name
    ∧ h'.view (dir ++ [name]) = h.view (dir ++ [name])

/-- A run that succeeded has put a regular file with an image in place of what was there. -/
def Replaced (h h' : Host) (dest : Path) (image : ByteArray) : Prop :=
  ∃ dir name file, Target h dest dir name ∧ Beside h h' dir name
    ∧ h'.view (dir ++ [name]) = some (.file file) ∧ file.content.toList = Bytes.ofBuffer image

namespace LockEdit

variable {lock : Nodes → Nodes}

theorem find?_name (locks : LockEdit h.now name lock entries) :
    (lock entries).find? name = entries.find? name :=
  locks.others name (Ne.symm (lockName_ne (Nat.lt_add_of_pos_right (by decide))))

/-- A directory in which only the lock may be new. -/
theorem unreplaced (locks : LockEdit h.now name lock entries) (target : Target h dest dir name)
    (is : h.at? dir = some (.directory mtime entries)) : Unreplaced h (h.edit dir lock) dest := by
  refine .inr ⟨dir, name, target, ?_, view_edit_entry is locks.find?_name []⟩
  exact beside_edit is locks.own (.inl locks.find?_name) fun other ne _ => locks.others other ne

theorem replaced (locks : LockEdit h.now name lock entries) (target : Target h dest dir name)
    (is : h.at? dir = some (.directory mtime entries)) (noDirectory : entries.NoDirectory name)
    {file : File} {image : ByteArray} (holds : file.content.toList = Bytes.ofBuffer image) :
    Replaced h (h.edit dir fun entries => (lock entries).set name (.file file)) dest image := by
  have new := Nodes.find?_set_self name (.file file) (lock entries)
  have old (other : Bytes) (ne : other ≠ name) :
      ((lock entries).set name (.file file)).find? other = (lock entries).find? other :=
    Nodes.find?_set_of_ne (.file file) (lock entries) ne
  refine ⟨dir, name, file, target, beside_edit is ?_ (.inr ⟨noDirectory, ?_⟩) ?_, ?_, holds⟩
  · rw [old _ (lockName_ne (Nat.lt_add_of_pos_right (by decide)))]
    exact locks.own
  · intro mtime inner found
    cases new.symm.trans found
  · intro other ne_lock ne_name
    rw [old other ne_name, locks.others other ne_lock]
  · rw [view_entry (at?_edit_self _ is), new]
    rfl

end LockEdit

theorem Locks.unreplaced (locked : Locks h dest name h₁) (named : Path.fileName? dest = some name) :
    Unreplaced h h₁ dest := by
  obtain rfl | ⟨dir, opened, new, rfl⟩ := locked
  · exact .inl rfl
  · obtain ⟨mtime, entries, is⟩ := isDirectory_iff.1 (isDirectory_of_openDirectory opened)
    exact (LockEdit.cons ((entry?_eq is _).symm.trans new)).unreplaced ⟨named, opened⟩ is

theorem makeTemporary_eq_ok {path : Path} {temporary : Bytes}
    (made : h.makeTemporary path = .ok ((dir, temporary), h')) :
    h.openDirectory path true = .ok dir
      ∧ (∃ mtime entries, h.at? dir = some (.directory mtime entries)
        ∧ entries.find? temporary = none)
      ∧ h' = h.add dir temporary (h.freshFile (.hole 0)) := by
  unfold makeTemporary at made
  split at made
  · cases made
  · next loc opened =>
    split at made
    · next mtime entries found =>
      cases made
      exact ⟨opened, ⟨mtime, entries, found, find?_freeName entries⟩, rfl⟩
    · cases made

/-- A temporary file that is removed leaves no trace but the directory's modification time. -/
theorem remove_add (h : Host) (dir : Location) (name : Bytes) (node : Node) :
    (h.add dir name node).remove dir name = h.edit dir id := by
  rw [add_eq_edit, remove_eq_edit, edit_edit]
  congr 1
  funext entries
  simp only [Function.comp_apply, Nodes.erase, if_true, id]

/-- A temporary file that is written and renamed is a new node of the other name. -/
theorem put_remove_put_add (h : Host) (dir : Location) (old name : Bytes) (node empty : Node) :
    (((h.add dir old empty).put dir old node).remove dir old).put dir name node
      = h.edit dir (·.set name node) := by
  simp only [add_eq_edit, put_eq_edit, remove_eq_edit, edit_edit]
  congr 1
  funext entries
  simp only [Function.comp_apply, Nodes.set, Nodes.erase, if_true]

/-- A temporary file that has been written and is renamed replaces the file. -/
theorem LockEdit.replaced_of_rename {lock : Nodes → Nodes} {mtime₁ : Int64} {temporary : Bytes}
    {empty : Node} {file : File} {image : ByteArray} (locks : LockEdit h.now name lock entries)
    (target : Target h dest dir name) (is : h.at? dir = some (.directory mtime entries))
    (is₁ : h₁.at? dir = some (.directory mtime₁ (lock entries)))
    (goes : ∀ f, h₁.edit dir f = h.edit dir (f ∘ lock))
    (free : (lock entries).find? temporary = none)
    (holds : file.content.toList = Bytes.ofBuffer image)
    (renamed : ((h₁.add dir temporary empty).put dir temporary (.file file)).rename
      dir temporary name dest = .ok h') : Replaced h h' dest image := by
  obtain ⟨node, found, noDirectory, rfl⟩ := rename_eq_ok renamed
  -- What has been renamed is the temporary file, with all that was written into it.
  have is₂ := at?_edit_self (.cons temporary empty) is₁
  have is₃ := at?_edit_self (·.set temporary (.file file)) is₂
  obtain rfl : node = .file file := by
    have own := (entry?_eq is₃ temporary).symm.trans found
    rw [Nodes.find?_set_self] at own
    exact (Option.some.inj own).symm
  have noDirectory : entries.NoDirectory name := by
    intro mtime inner there
    refine noDirectory mtime inner ((entry?_eq is₃ name).trans ?_)
    have ne : temporary ≠ name := by
      rintro rfl
      cases free.symm.trans (locks.find?_name.trans there)
    rw [Nodes.find?_set_of_ne _ _ (Ne.symm ne), Nodes.find?, if_neg ne, locks.find?_name, there]
  have replaced : Replaced h (h.edit dir ((·.set name (.file file)) ∘ lock)) dest image :=
    locks.replaced target is noDirectory holds
  rwa [← goes, ← put_remove_put_add h₁ dir temporary name _ empty] at replaced

/-- How a run ends whose last call alone may be refused. -/
theorem compileTo_of_compile {root : Directory} {o : Options} {h₂ : Host} {temporary : Bytes}
    {summary : Summary} {output : Output} (named : Path.fileName? dest = some name)
    (lock : h.openLock (lockPath dest name) = .ok (false, h₁))
    (made : h₁.makeTemporary (outputDirectory dest) = .ok ((dir, temporary), h₂))
    (ran : root.compile h₂.sources o (.file fun _ _ => none) = (.ok summary, output))
    {refusal : Option IoError} {renamed : Except IoError Host}
    (last : guarded refusal ((h₂.put dir temporary (h₂.freshFile output.content)).rename
      dir temporary name dest) = renamed) :
    (h.compileTo root dest o { rename := refusal }).1
      = (renamed.map fun _ => summary).mapError fun e => .error (.writeFailure dest e) := by
  have lock := guarded_eq_ok_iff.2 ⟨rfl, lock⟩
  have made := guarded_eq_ok_iff.2 ⟨rfl, made⟩
  simp only [compileTo, named, lock, made, ran, last]
  cases renamed <;> rfl

/-- A run into the file at a path was all or nothing. If it failed, nothing that was there is
changed, and at most an empty lock file is new. If it succeeded, the path's name stands for a
regular file with the image that the tree has in memory, as long as the summary says, and beside it
at most the lock file is new. -/
def AllOrNothing (h : Host) (root : Directory) (dest : Path) (o : Options) :
    Except (Fault RunError) Summary × Host → Prop
  | (.error _, h') => Unreplaced h h' dest
  | (.ok summary, h') => ∃ image, root.image h.sources o = .ok image
      ∧ image.size = summary.imageLength ∧ Replaced h h' dest image

/-- However a run into the file at a path ends, and whatever is refused on its way, it is all or
nothing. -/
theorem compileTo_atomic (h : Host) (root : Directory) (dest : Path) (o : Options)
    (refusals : Refusals) : AllOrNothing h root dest o (h.compileTo root dest o refusals) := by
  unfold compileTo
  split
  · exact .inl rfl
  next name named =>
  have noSlash := slash_notMem_of_fileName? named
  split
  · exact .inl rfl
  · next h₁ lock => exact (openLock_eq_ok noSlash (guarded_eq_ok_iff.1 lock).2).unreplaced named
  next h₁ lock =>
  have locked : Locks h dest name h₁ := openLock_eq_ok noSlash (guarded_eq_ok_iff.1 lock).2
  split
  · exact locked.unreplaced named
  split
  · exact locked.unreplaced named
  next dir temporary h₂ made =>
  obtain ⟨opened, ⟨mtime₁, entries₁, is₁, free⟩, rfl⟩ :=
    makeTemporary_eq_ok (guarded_eq_ok_iff.1 made).2
  have target : Target h dest dir name := ⟨named, locked.grown.openDirectory_of opened⟩
  obtain ⟨mtime, entries, is⟩ := isDirectory_iff.1 (isDirectory_of_openDirectory target.opened)
  obtain ⟨lock, locks, ⟨_, is₁'⟩, goes⟩ := locked.edit target is
  obtain rfl : entries₁ = lock entries := by
    cases is₁.symm.trans is₁'
    rfl
  have discarded : Unreplaced h
      ((h₁.add dir temporary (h₁.freshFile (.hole 0))).remove dir temporary) dest := by
    rw [remove_add, goes]
    exact locks.unreplaced target is
  split
  · exact discarded
  next summary output ran =>
  split
  · exact discarded
  dsimp only
  split
  · exact discarded
  next h' renamed =>
  have grown : h.Grown (h₁.add dir temporary (h₁.freshFile (.hole 0))) := by
    refine locked.grown.trans (.add ?_ (isDirectory_iff.2 ⟨_, _, is₁⟩) rfl)
    exact (entry?_eq is₁ temporary).trans free
  obtain ⟨image, made, same, size⟩ :=
    Directory.image_of_compile ran fun path source found filled => grown.sources_of found filled
  exact ⟨image, made, size,
    locks.replaced_of_rename target is is₁ goes free same.symm (guarded_eq_ok_iff.1 renamed).2⟩

end

/-! ## A file that is there -/

/-- A host whose current directory has one file, of one byte and called `f`. -/
def drawer : Host :=
  ⟨.directory 1 (.cons [0x73] (.directory 2 (.cons [0x66] (.file ⟨.hole 1, 3, false⟩) .nil)) .nil),
    [[0x73]], 9⟩

/-- How a run of the small tree into the file of the drawer ends, when renaming may be refused. -/
theorem compileTo_drawer (refusal : Option IoError) :
    (drawer.compileTo Directory.sample [0x66] {} { rename := refusal }).1
      = ((guarded refusal (.ok ())).map fun _ => Directory.sample.summary {}).mapError
        fun e => .error (.writeFailure [0x66] e) := by
  let locked := drawer.add [[0x73]] (lockName [0x66]) (drawer.freshFile (.hole 0))
  let started := locked.add [[0x73]] (temporaryName 0) (drawer.freshFile (.hole 0))
  have lock : drawer.openLock (lockPath [0x66] [0x66]) = .ok (false, locked) := by
    have free : drawer.resolve (lockPath [0x66] [0x66]) false
        = .ok (.free [[0x73]] (lockName [0x66])) := by
      refine resolve_eq_ok_iff.2 ⟨by decide, by decide, ?_⟩
      show follow _ _ _ [Name.current, lockName [0x66]] [[0x73]] = _
      rw [follow, if_pos (.inr rfl), follow, if_neg (by decide), if_neg (by decide),
        if_neg (by decide)]
      rfl
    have plain : hasZero (lockPath [0x66] [0x66]) = false := rfl
    simp only [openLock, plain, free]
    rfl
  have made : locked.makeTemporary (outputDirectory [0x66])
      = .ok (([[0x73]], temporaryName 0), started) := by
    have opened : locked.openDirectory (outputDirectory [0x66]) true = .ok [[0x73]] :=
      openDirectory_current (isDirectory_iff.2 ⟨9, _, rfl⟩)
    rw [makeTemporary, opened]
    rfl
  have renamed (content : Blob) : ∃ h', (started.put [[0x73]] (temporaryName 0)
        (started.freshFile content)).rename [[0x73]] (temporaryName 0) [0x66] [0x66] = .ok h' := by
    have plain (h : Host) : h.renameRefusal? [0x66] = none := rfl
    rw [rename, plain]
    exact ⟨_, rfl⟩
  obtain ⟨output, ran, _⟩ := Directory.sample_placeable.compile_of_readable
    (Directory.sample_readable none started.sources) (.file fun _ _ => none) rfl
  obtain ⟨h', renamed⟩ := renamed output.content
  rw [compileTo_of_compile rfl lock made ran (congrArg _ renamed)]
  cases refusal <;> rfl

/-- The file of the drawer is replaced by the image of the small tree. When the host does not rename
the complete image, the file is as it was. -/
theorem compileTo_atomic_drawer :
    drawer.view [[0x73], [0x66]] = some (.file ⟨.hole 1, 3, false⟩)
      ∧ (∃ summary h' image file, drawer.compileTo Directory.sample [0x66] {} = (.ok summary, h')
        ∧ Directory.sample.image drawer.sources {} = .ok image
        ∧ h'.view [[0x73], [0x66]] = some (.file file)
        ∧ file.content.toList = Bytes.ofBuffer image)
      ∧ ∃ h', drawer.compileTo Directory.sample [0x66] {} { rename := some (.os .busy) }
          = (Fault.fail (.writeFailure [0x66] (.os .busy)), h')
        ∧ h'.view [[0x73], [0x66]] = some (.file ⟨.hole 1, 3, false⟩) := by
  have was : drawer.view [[0x73], [0x66]] = some (.file ⟨.hole 1, 3, false⟩) := rfl
  have target {dir : Location} {name : Bytes} (target : Target drawer [0x66] dir name) :
      dir ++ [name] = [[0x73], [0x66]] := by
    have opened : drawer.openDirectory (outputDirectory [0x66]) true = .ok [[0x73]] :=
      openDirectory_current (isDirectory_iff.2 ⟨2, _, rfl⟩)
    obtain rfl := Except.ok.inj (opened.symm.trans target.opened)
    obtain rfl : [0x66] = name := Option.some.inj target.named
    rfl
  refine ⟨was, ?_, ?_⟩
  · have atomic := compileTo_atomic drawer Directory.sample [0x66] {} {}
    rcases run : drawer.compileTo Directory.sample [0x66] {} with ⟨result, h'⟩
    obtain rfl : result = _ := (congrArg Prod.fst run).symm.trans (compileTo_drawer none)
    rw [run] at atomic
    obtain ⟨image, made, _, dir, name, file, is, _, there, holds⟩ := atomic
    rw [target is] at there
    exact ⟨_, h', image, file, rfl, made, there, holds⟩
  · have atomic := compileTo_atomic drawer Directory.sample [0x66] {} { rename := some (.os .busy) }
    rcases run : drawer.compileTo Directory.sample [0x66] {} { rename := some (.os .busy) }
      with ⟨result, h'⟩
    obtain rfl : result = _ := (congrArg Prod.fst run).symm.trans (compileTo_drawer _)
    rw [run] at atomic
    refine ⟨h', rfl, ?_⟩
    obtain rfl | ⟨dir, name, is, _, same⟩ := atomic
    · exact was
    · rw [target is] at same
      exact same.trans was

end FlatImage.Host
