import FlatImage.Proofs.Host.View
import FlatImage.Proofs.Locations
import FlatImage.Proofs.Settled

/-!
# What a tree is unpacked as

Every entry of a tree has a node that it is unpacked as, with the bytes that its image has of a file
and the modification time that it has of the entry. Names lead from a directory where a tree was
unpacked to the nodes of what they lead to in the tree. This is also all that an image has of a
tree: two trees that show the same are read back from their images as the same.
-/

namespace FlatImage

open Host (Node Nodes Location)

/-! ## What is made -/

mutual

/-- The node that an entry is unpacked as. -/
def Entry.restored (o : Options) (sources : Sources) : Entry → Node
  | .file f => .file ⟨.ofBuffer (f.content.bytes sources).toBuffer,
      (Layout.recordedMtime o f.mtime).toInt64, false⟩
  | .directory d => .directory (Layout.recordedMtime o d.mtime).toInt64 (d.restored o sources)

/-- The entries that a directory has when it was empty, the latest first. -/
def Directory.restored (o : Options) (sources : Sources) : Directory → Nodes
  | .mk _ entries => entries.restored o sources .nil

/-- Entries in front of those that were there before. -/
def Entries.restored (o : Options) (sources : Sources) : Entries → Nodes → Nodes
  | .nil, before => before
  | .cons name entry rest, before =>
    rest.restored o sources (.cons name (entry.restored o sources) before)

end

/-- The entries are made in a directory, one after the other. -/
def Entries.restoreIn (o : Options) (sources : Sources) (dir : Location) : Entries → Host → Host
  | .nil, h => h
  | .cons name entry rest, h =>
    rest.restoreIn o sources dir (h.add dir name (entry.restored o sources))

section

variable {o : Options} {sources : Sources} {h : Host} {dir : Location} {name : Bytes}

/-- Entries that are made in a new directory are as good as made before it. -/
theorem Entries.restoreIn_add (entries : Entries) (before : Nodes) :
    entries.restoreIn o sources (dir ++ [name]) (h.add dir name (.directory h.now before))
      = h.add dir name (.directory h.now (entries.restored o sources before)) := by
  match entries with
  | .nil => rfl
  | .cons other entry rest =>
    have inside : (h.add dir name (.directory h.now before)).add (dir ++ [name]) other
        (entry.restored o sources)
        = h.add dir name (.directory h.now (.cons other (entry.restored o sources) before)) :=
      Host.update_add ..
    rw [restoreIn, restored, inside]
    exact rest.restoreIn_add _

/-- Entries behind the first are as new after it was made as before. -/
theorem Entries.new_behind {entry : Entry} {rest : Entries}
    (ordered : (cons name entry rest).ordered) {before : Nodes}
    (new : ∀ other, (cons name entry rest).find? other ≠ none → before.find? other = none)
    (node : Node) (other : Bytes) (listed : rest.find? other ≠ none) :
    (Nodes.cons name node before).find? other = none := by
  simp only [Entries.ordered, Bool.and_eq_true] at ordered
  have ne : name ≠ other := by
    rintro rfl
    exact listed (Entries.find?_eq_none ordered.2 ordered.1.1)
  rw [Nodes.find?, if_neg ne]
  exact new other (by rwa [Entries.find?, if_neg ne])

end

/-! ## What is there afterwards -/

/-- What shows on a host where an entry was unpacked: the bytes that the image has of a file, and
the modification time that it has of the entry. -/
def Entry.unpacked (o : Options) (sources : Sources) : Entry → Node
  | .file f => .file ⟨.ofBuffer (f.settled.content.bytes sources).toBuffer,
      (Layout.recordedMtime o f.mtime).toInt64, false⟩
  | .directory d => .directory (Layout.recordedMtime o d.mtime).toInt64 .nil

section

variable {o : Options} {sources : Sources}

/-- The entries that are made are found, and those that were there before. -/
theorem Entries.find?_restored {entries : Entries} (ordered : entries.ordered) (name : Bytes)
    (before : Nodes) : (entries.restored o sources before).find? name
      = ((entries.find? name).map (Entry.restored o sources)).or (before.find? name) := by
  match entries with
  | .nil => rfl
  | .cons other entry rest =>
    simp only [Entries.ordered, Bool.and_eq_true] at ordered
    obtain ⟨⟨after, _⟩, rest_ordered⟩ := ordered
    rw [restored, rest.find?_restored rest_ordered]
    by_cases is : other = name
    · rw [is] at after
      rw [Entries.find?_eq_none rest_ordered after, find?, Nodes.find?, if_pos is, if_pos is]
      rfl
    · rw [find?, Nodes.find?, if_neg is, if_neg is]

/-- What stands below a restored entry is what is below the entry, restored. -/
theorem Entry.at?_restored (loc : Location) {entry : Entry} (ordered : entry.ordered) :
    (entry.restored o sources).at? loc = (entry.at? loc).map (Entry.restored o sources) := by
  induction loc generalizing entry with
  | nil => rfl
  | cons name rest ih =>
    cases entry with
    | file f => rfl
    | directory d =>
      cases d with
      | mk mtime entries =>
        have same : (entries.restored o sources .nil).find? name = _ :=
          Entries.find?_restored ordered name .nil
        rw [Nodes.find?, Option.or_none] at same
        rw [Entry.restored, Directory.restored, Node.at?, same, Entry.at?, Directory.find?,
          Directory.entries]
        cases found : entries.find? name with
        | none => rfl
        | some entry => exact ih (Entries.ordered_of_find? ordered found)

theorem Entries.find?_settled (name : Bytes) (entries : Entries) :
    entries.settled.find? name = (entries.find? name).map Entry.settled := by
  match entries with
  | .nil => rfl
  | .cons other entry rest =>
    rw [settled, find?, find?]
    split
    · rfl
    · exact rest.find?_settled name

theorem Entry.at?_settled (loc : Location) (entry : Entry) :
    entry.settled.at? loc = (entry.at? loc).map Entry.settled := by
  induction loc generalizing entry with
  | nil => rfl
  | cons name rest ih =>
    cases entry with
    | file f => rfl
    | directory d =>
      cases d with
      | mk mtime entries =>
        rw [Entry.settled, Directory.settled, Entry.at?, Entry.at?, Directory.find?,
          Directory.find?, Directory.entries, Directory.entries, Entries.find?_settled]
        cases entries.find? name with
        | none => rfl
        | some entry => exact ih entry

mutual

theorem Entries.ordered_settled (entries : Entries) :
    entries.settled.ordered = entries.ordered := by
  match entries with
  | .nil => rfl
  | .cons name entry rest =>
    have first : rest.settled.startsAfter name = rest.startsAfter name := by cases rest <;> rfl
    rw [Entries.settled, Entries.ordered, Entries.ordered, first, entry.ordered_settled,
      rest.ordered_settled]

theorem Entry.ordered_settled (entry : Entry) : entry.settled.ordered = entry.ordered := by
  match entry with
  | .file f => rfl
  | .directory (.mk mtime entries) => exact entries.ordered_settled

end

theorem Directory.ordered_settled (root : Directory) : root.settled.ordered = root.ordered := by
  cases root with
  | mk mtime entries => exact entries.ordered_settled

theorem Entry.shell_restored_settled (entry : Entry) :
    (entry.settled.restored o sources).shell = entry.unpacked o sources := by
  cases entry with
  | file f =>
    rw [Entry.settled, Entry.restored, File.mtime_settled]
    rfl
  | directory d => cases d; rfl

/-- Entries that are made in a directory stand there in front of those that were there before. -/
theorem Entries.at?_restoreIn (entries : Entries) {h : Host} {dir : Location} {mtime : Int64}
    {before : Nodes} (is : h.at? dir = some (.directory mtime before)) :
    ∃ mtime, (entries.restoreIn o sources dir h).at? dir
      = some (.directory mtime (entries.restored o sources before)) := by
  match entries with
  | .nil => exact ⟨mtime, is⟩
  | .cons name entry rest =>
    exact rest.at?_restoreIn (Host.at?_edit_self (.cons name (entry.restored o sources)) is)

/-- In a directory that was empty, the entries of a tree show as they are in the tree. -/
theorem Directory.view_restoreIn {root : Directory} (ordered : root.ordered) {h : Host}
    {dir : Location} {mtime : Int64} (empty : h.at? dir = some (.directory mtime .nil))
    {loc : Location} (inside : loc ≠ []) :
    (root.settled.entries.restoreIn o sources dir h).view (dir ++ loc)
      = ((Entry.directory root).at? loc).map (Entry.unpacked o sources) := by
  obtain ⟨stamp, is⟩ : ∃ stamp, (root.settled.entries.restoreIn o sources dir h).at? dir
      = some (.directory stamp (root.settled.entries.restored o sources .nil)) :=
    root.settled.entries.at?_restoreIn empty
  obtain ⟨name, rest, rfl⟩ := List.exists_cons_of_ne_nil inside
  have ordered' : (Entry.directory root).settled.ordered := by rwa [Entry.ordered_settled]
  have shown : ((Entry.directory root).settled.restored o sources).at? (name :: rest) = _ :=
    Entry.at?_restored (name :: rest) ordered'
  rw [Entry.at?_settled] at shown
  cases root with
  | mk mtime entries =>
    rw [Host.view, Host.at?_append, is, Option.bind_some]
    have below : (Node.directory _ (entries.settled.restored o sources .nil)).at? (name :: rest)
        = _ := shown
    exact (congrArg (Option.map Node.shell) below).trans (by
      rw [Option.map_map, Option.map_map]
      exact congrArg (Option.map · _) (funext Entry.shell_restored_settled))

end

section

variable {o : Options} {sources sources' : Sources}

/-! ## Trees that show the same -/

/-- Modification times that a host shows alike are alike in an image. -/
theorem Options.stamp_eq_of_recordedMtime {mtime mtime' : Int64}
    (same : (Layout.recordedMtime o mtime).toInt64 = (Layout.recordedMtime o mtime').toInt64) :
    o.stamp mtime = o.stamp mtime' := by
  have recorded := congrArg Int64.toUInt64 same
  rw [UInt64.toUInt64_toInt64, UInt64.toUInt64_toInt64] at recorded
  rw [← Layout.toNat_recordedMtime, ← Layout.toNat_recordedMtime, recorded]

theorem Entry.mtime_settled (entry : Entry) : entry.settled.mtime = entry.mtime := by
  cases entry with
  | file f => exact f.mtime_settled
  | directory d => cases d; rfl

theorem Entry.stamp_eq_of_unpacked {entry entry' : Entry}
    (same : entry.unpacked o sources = entry'.unpacked o sources') :
    o.stamp entry.mtime = o.stamp entry'.mtime := by
  cases entry with
  | file f =>
    cases entry' with
    | file f' =>
      simp only [unpacked, Node.file.injEq, Host.File.mk.injEq] at same
      exact Options.stamp_eq_of_recordedMtime same.2.1
    | directory => cases same
  | directory d =>
    cases entry' with
    | file => cases same
    | directory d' =>
      simp only [unpacked, Node.directory.injEq] at same
      exact Options.stamp_eq_of_recordedMtime same.1

/-- Files that show the same have the same bytes, as far as a run looks at them. -/
theorem File.bytes_eq_of_unpacked {f f' : File}
    (same : (Entry.file f).unpacked o sources = (Entry.file f').unpacked o sources') :
    f.settled.content.bytes sources = f'.settled.content.bytes sources' := by
  simp only [Entry.unpacked, Node.file.injEq, Host.File.mk.injEq, Blob.ofBuffer, Blob.mk.injEq,
    and_true] at same
  have bytes := congrArg Bytes.ofBuffer same.1
  rwa [Bytes.ofBuffer_toBuffer, Bytes.ofBuffer_toBuffer] at bytes

/-- A name that has an entry on one side only tells two lists of entries apart. -/
theorem Entries.absurd_of_shown {entries entries' : Entries} {name : Bytes} {entry : Entry}
    (found : entries.find? name = some entry) (none : entries'.find? name = none) 
    (same : ∀ name rest, ((entries.find? name).bind (Entry.at? rest)).map (Entry.unpacked o sources)
      = ((entries'.find? name).bind (Entry.at? rest)).map (Entry.unpacked o sources')) : False := by
  have shown := same name []
  rw [found, none] at shown
  cases shown

mutual

/-- Entries in order that show the same, whatever names are followed from them, are read back from
an image as the same. -/
theorem Entries.listing_eq_of_shown (entries entries' : Entries) (ordered : entries.ordered)
    (ordered' : entries'.ordered)
    (same : ∀ name rest, ((entries.find? name).bind (Entry.at? rest)).map (Entry.unpacked o sources)
      = ((entries'.find? name).bind (Entry.at? rest)).map (Entry.unpacked o sources')) :
    entries.settled.listing o sources = entries'.settled.listing o sources' := by
  cases entries with
  | nil =>
    cases entries' with
    | nil => rfl
    | cons name entry rest =>
      exact (Entries.absurd_of_shown (rest.find?_cons_self name entry) rfl
        fun name rest => (same name rest).symm).elim
  | cons name entry rest =>
    cases entries' with
    | nil => exact (Entries.absurd_of_shown (rest.find?_cons_self name entry) rfl same).elim
    | cons name' entry' rest' =>
      obtain rfl : name = name' := by
        rcases Bytes.before_trichotomy name name' with lt | is | lt
        · exact (Entries.absurd_of_shown (rest.find?_cons_self name entry)
            (Entries.find?_eq_none ordered' lt) same).elim
        · exact is
        · exact (Entries.absurd_of_shown (rest'.find?_cons_self name' entry')
            (Entries.find?_eq_none ordered lt) fun name rest => (same name rest).symm).elim
      simp only [Entries.ordered, Bool.and_eq_true] at ordered ordered'
      have first (names : List Bytes) : (entry.at? names).map (Entry.unpacked o sources)
          = (entry'.at? names).map (Entry.unpacked o sources') := by
        have shown := same name names
        rwa [rest.find?_cons_self, rest'.find?_cons_self] at shown
      have others (other : Bytes) (names : List Bytes) :
          ((rest.find? other).bind (Entry.at? names)).map (Entry.unpacked o sources)
            = ((rest'.find? other).bind (Entry.at? names)).map (Entry.unpacked o sources') := by
        by_cases is : name = other
        · subst is
          rw [Entries.find?_eq_none ordered.2 ordered.1.1,
            Entries.find?_eq_none ordered'.2 ordered'.1.1]
          rfl
        · have shown := same other names
          rwa [Entries.find?, if_neg is, Entries.find?, if_neg is] at shown
      have stamp := Entry.stamp_eq_of_unpacked (Option.some.inj (first []))
      have below := entry.snapshot_eq_of_shown entry' ordered.1.2 ordered'.1.2 first
      have behind := rest.listing_eq_of_shown rest' ordered.2 ordered'.2 others
      simp only [Entries.settled, Entries.listing, Entry.mtime_settled, stamp, below, behind]

theorem Entry.snapshot_eq_of_shown (entry entry' : Entry) (ordered : entry.ordered)
    (ordered' : entry'.ordered)
    (same : ∀ names, (entry.at? names).map (Entry.unpacked o sources)
      = (entry'.at? names).map (Entry.unpacked o sources')) :
    entry.settled.snapshot o sources = entry'.settled.snapshot o sources' := by
  have own := Option.some.inj (same [])
  cases entry with
  | file f =>
    cases entry' with
    | file f' => exact congrArg Snapshot.file (File.bytes_eq_of_unpacked own)
    | directory => cases own
  | directory d =>
    cases entry' with
    | file => cases own
    | directory d' =>
      cases d with
      | mk mtime entries =>
        cases d' with
        | mk mtime' entries' =>
          exact congrArg Snapshot.directory (entries.listing_eq_of_shown entries' ordered ordered'
            fun name rest => same (name :: rest))

end

end

end FlatImage
