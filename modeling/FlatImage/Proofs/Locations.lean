import FlatImage.Proofs.Insertion
import FlatImage.Proofs.Layout.Limits

/-!
# What is where in a tree

Names lead from the root of a tree down to an entry. In a tree whose names ascend everything has
its names: the files, with the paths under which they are listed, and all that has a name at all. So
what holds of the entries that names lead to holds of the whole tree.
-/

namespace FlatImage

/-- A path with names behind it. -/
def Path.joinAll (path : Path) (names : List Bytes) : Path := names.foldl join path

/-- The entry that names lead to. -/
def Entry.at? : List Bytes → Entry → Option Entry
  | [], entry => some entry
  | name :: rest, .directory d => (d.find? name).bind (at? rest)
  | _ :: _, .file _ => none

variable {entries : Entries} {entry : Entry} {name : Bytes} {names : List Bytes} {path : Path}

theorem Entries.ordered_of_find? {entries : Entries} (ordered : entries.ordered)
    (found : entries.find? name = some entry) : entry.ordered := by
  match entries with
  | .nil => cases found
  | .cons other first rest =>
    simp only [Entries.ordered, Bool.and_eq_true] at ordered
    by_cases is : other = name
    · rw [find?, if_pos is] at found
      cases found
      exact ordered.1.2
    · rw [find?, if_neg is] at found
      exact ordered_of_find? ordered.2 found

/-- An entry behind the first of several in order has another name. -/
theorem Entries.find?_cons_of_find? {first : Entry} (ordered : (cons name first entries).ordered)
    {other : Bytes} (found : entries.find? other = some entry) :
    (cons name first entries).find? other = some entry := by
  simp only [Entries.ordered, Bool.and_eq_true] at ordered
  have ne : name ≠ other := by
    rintro rfl
    cases found.symm.trans (find?_eq_none ordered.2 ordered.1.1)
  rw [find?, if_neg ne, found]

mutual

/-- A file that is listed is where names lead, under the path that they make. -/
theorem Directory.at?_of_mem_allFiles (path : Path) (d : Directory) (ordered : d.ordered)
    {place : Path × File} (mem : place ∈ d.allFiles path) :
    ∃ names, place.1 = path.joinAll names
      ∧ (Entry.directory d).at? names = some (.file place.2) := by
  cases d with
  | mk mtime entries =>
    obtain ⟨name, entry, found, rest, path, there⟩ := entries.at?_of_mem_allFiles path ordered mem
    refine ⟨name :: rest, path, ?_⟩
    rw [Entry.at?, Directory.find?, Directory.entries, found]
    exact there

theorem Entries.at?_of_mem_allFiles (path : Path) (entries : Entries) (ordered : entries.ordered)
    {place : Path × File} (mem : place ∈ entries.allFiles path) :
    ∃ name entry, entries.find? name = some entry
      ∧ ∃ names, place.1 = (Path.join path name).joinAll names
        ∧ entry.at? names = some (.file place.2) := by
  cases entries with
  | nil => cases mem
  | cons name entry rest =>
    have all := ordered
    simp only [Entries.ordered, Bool.and_eq_true] at ordered
    obtain mem | mem := List.mem_append.1 mem
    · exact ⟨name, entry, rest.find?_cons_self name entry,
        entry.at?_of_mem_allFiles _ ordered.1.2 mem⟩
    · obtain ⟨other, later, found, there⟩ := rest.at?_of_mem_allFiles path ordered.2 mem
      exact ⟨other, later, Entries.find?_cons_of_find? all found, there⟩

theorem Entry.at?_of_mem_allFiles (path : Path) (entry : Entry) (ordered : entry.ordered)
    {place : Path × File} (mem : place ∈ entry.allFiles path) :
    ∃ names, place.1 = path.joinAll names ∧ entry.at? names = some (.file place.2) := by
  cases entry with
  | file f =>
    obtain rfl := List.mem_singleton.1 mem
    exact ⟨[], rfl, rfl⟩
  | directory d => exact d.at?_of_mem_allFiles path ordered mem

end

/-- The file of a name is listed among the files of its entries. -/
theorem Entries.mem_allFiles_of_find? {entries : Entries} {place : Path × File}
    (found : entries.find? name = some entry)
    (mem : place ∈ entry.allFiles (Path.join path name)) : place ∈ entries.allFiles path := by
  match entries with
  | .nil => cases found
  | .cons other first rest =>
    by_cases is : other = name
    · subst is
      rw [find?, if_pos rfl] at found
      cases found
      exact List.mem_append_left _ mem
    · rw [find?, if_neg is] at found
      exact List.mem_append_right _ (mem_allFiles_of_find? found mem)

/-- A file where names lead is listed under the path that they make. -/
theorem Entry.mem_allFiles_of_at? {f : File} (there : entry.at? names = some (.file f)) :
    (path.joinAll names, f) ∈ entry.allFiles path := by
  induction names generalizing entry path with
  | nil =>
    cases there
    exact List.mem_singleton_self _
  | cons name rest ih =>
    cases entry with
    | file => cases there
    | directory d =>
      cases d with
      | mk mtime entries =>
        obtain ⟨entry, found, there⟩ := Option.bind_eq_some_iff.1 there
        exact Entries.mem_allFiles_of_find? found (ih there)

mutual

/-- What has a name in a tree is where names lead that end with it. -/
theorem Directory.at?_of_mem_names (d : Directory) (ordered : d.ordered) (mem : name ∈ d.names) :
    ∃ names entry, (Entry.directory d).at? names = some entry ∧ names.getLast? = some name := by
  cases d with
  | mk mtime entries =>
    obtain ⟨first, entry, found, rest, last, there, ends⟩ := entries.at?_of_mem_names ordered mem
    refine ⟨first :: rest, last, ?_, ends⟩
    rw [Entry.at?, Directory.find?, Directory.entries, found]
    exact there

theorem Entries.at?_of_mem_names (entries : Entries) (ordered : entries.ordered)
    (mem : name ∈ entries.names) : ∃ first entry, entries.find? first = some entry
      ∧ ∃ rest last, entry.at? rest = some last ∧ (first :: rest).getLast? = some name := by
  cases entries with
  | nil => cases mem
  | cons first entry others =>
    have all := ordered
    simp only [Entries.ordered, Bool.and_eq_true] at ordered
    obtain own | mem := List.mem_append.1 mem
    · refine ⟨first, entry, others.find?_cons_self first entry, ?_⟩
      obtain rfl | mem := List.mem_cons.1 own
      · exact ⟨[], entry, rfl, rfl⟩
      · obtain ⟨rest, last, there, ends⟩ := entry.at?_of_mem_names ordered.1.2 mem
        exact ⟨rest, last, there, by rw [List.getLast?_cons, ends, Option.getD_some]⟩
    · obtain ⟨other, later, found, there⟩ := others.at?_of_mem_names ordered.2 mem
      exact ⟨other, later, Entries.find?_cons_of_find? all found, there⟩

theorem Entry.at?_of_mem_names (entry : Entry) (ordered : entry.ordered)
    (mem : name ∈ entry.names) :
    ∃ names last, entry.at? names = some last ∧ names.getLast? = some name := by
  cases entry with
  | file f => cases mem
  | directory d => exact d.at?_of_mem_names ordered mem

end

end FlatImage
