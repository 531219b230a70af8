import FlatImage.Proofs.Canonical
import FlatImage.Proofs.Sources

/-!
# Files of no bytes

A file of size zero gets no blocks, so no run looks at its content. The settled tree has nothing in
such files. It has the same image as the tree itself, and if there is an image, every file of the
settled tree has the size that it claims: what is known of images of such trees is known of all
images.
-/

namespace FlatImage

/-- The file, with no content if its size is zero. -/
def File.settled (f : File) : File :=
  if f.size = 0 then { f with content := .inline ByteArray.empty } else f

mutual

/-- The tree without the contents of files of size zero. -/
def Directory.settled : Directory → Directory
  | .mk mtime entries => .mk mtime entries.settled

def Entries.settled : Entries → Entries
  | .nil => .nil
  | .cons name entry rest => .cons name entry.settled rest.settled

def Entry.settled : Entry → Entry
  | .file f => .file f.settled
  | .directory d => .directory d.settled

end

section

variable {o : Options} {sources sources' : Sources}

@[simp] theorem File.size_settled (f : File) : f.settled.size = f.size := by
  unfold settled
  split <;> rfl

@[simp] theorem File.mtime_settled (f : File) : f.settled.mtime = f.mtime := by
  unfold settled
  split <;> rfl

@[simp] theorem Entries.size_settled (entries : Entries) : entries.settled.size = entries.size := by
  cases entries with
  | nil => rfl
  | cons name entry rest => exact congrArg (· + 1) rest.size_settled

@[simp] theorem Directory.size_settled (d : Directory) : d.settled.size = d.size := by
  cases d with
  | mk mtime entries => exact entries.size_settled

mutual

theorem Directory.directories_settled (path : Path) (d : Directory) : d.settled.directories path
    = (d.directories path).map (Prod.map id Directory.settled) := by
  cases d with
  | mk mtime entries => exact congrArg _ (entries.directories_settled path)

theorem Entries.directories_settled (path : Path) (entries : Entries) :
    entries.settled.directories path
      = (entries.directories path).map (Prod.map id Directory.settled) := by
  cases entries with
  | nil => rfl
  | cons name entry rest =>
    rw [Entries.settled, Entries.directories, entry.directories_settled, rest.directories_settled,
      ← List.map_append]
    rfl

theorem Entry.directories_settled (path : Path) (entry : Entry) :
    entry.settled.directories path
      = (entry.directories path).map (Prod.map id Directory.settled) := by
  cases entry with
  | file f => rfl
  | directory d => exact d.directories_settled path

end

mutual

theorem Directory.allFiles_settled (path : Path) (d : Directory) : d.settled.allFiles path
    = (d.allFiles path).map (Prod.map id File.settled) := by
  cases d with
  | mk mtime entries => exact entries.allFiles_settled path

theorem Entries.allFiles_settled (path : Path) (entries : Entries) :
    entries.settled.allFiles path = (entries.allFiles path).map (Prod.map id File.settled) := by
  cases entries with
  | nil => rfl
  | cons name entry rest =>
    rw [Entries.settled, Entries.allFiles, entry.allFiles_settled, rest.allFiles_settled,
      ← List.map_append]
    rfl

theorem Entry.allFiles_settled (path : Path) (entry : Entry) :
    entry.settled.allFiles path = (entry.allFiles path).map (Prod.map id File.settled) := by
  cases entry with
  | file f => rfl
  | directory d => exact d.allFiles_settled path

end

/-- A file is alike the settled one, wherever its bytes come from. -/
theorem File.alike_settled (f : File)
    (same : f.size ≠ 0 → f.content.bytes sources = f.content.bytes sources') :
    (Entry.file f).Alike o sources sources' (.file f.settled) where
  count := rfl
  tableBlocks := rfl
  dataBlocks := by simp only [Entry.dataBlocks, size_settled]
  record parent name s := by
    simp only [Entry.record, Entry.mtime, Entry.kind, Entry.bytes, Entry.start, Entry.blocks,
      size_settled, mtime_settled]
  tableBytes _ _ := rfl
  dataBytes := by
    simp only [Entry.dataBytes, size_settled]
    by_cases empty : f.size = 0
    · rw [if_pos empty, if_pos empty]
    · rw [if_neg empty, if_neg empty, same empty, settled, if_neg empty]
  offence path name counted data := by
    simp only [Entry.offence?, Entry.refusal?, Entry.sizeRefusal?, size_settled]

mutual

/-- A tree is alike the settled one over sources that have the same bytes for its files. -/
theorem Directory.alike_settled (path : Path) (d : Directory)
    (same : ∀ place ∈ d.allFiles path, place.2.size ≠ 0 →
      place.2.content.bytes sources = place.2.content.bytes sources') :
    d.Alike o sources sources' d.settled := by
  cases d with
  | mk mtime entries => exact Directory.alike_of_entries (entries.alike_settled path same)

theorem Entries.alike_settled (path : Path) (entries : Entries)
    (same : ∀ place ∈ entries.allFiles path, place.2.size ≠ 0 →
      place.2.content.bytes sources = place.2.content.bytes sources') :
    entries.Alike o sources sources' entries.settled := by
  cases entries with
  | nil => exact Entries.alike_nil
  | cons name entry rest =>
    obtain ⟨first, others⟩ := List.forall_mem_append.1 same
    exact Entries.alike_cons name (entry.alike_settled _ first) (rest.alike_settled path others)

theorem Entry.alike_settled (path : Path) (entry : Entry)
    (same : ∀ place ∈ entry.allFiles path, place.2.size ≠ 0 →
      place.2.content.bytes sources = place.2.content.bytes sources') :
    entry.Alike o sources sources' entry.settled := by
  cases entry with
  | file f => exact f.alike_settled (List.forall_mem_singleton.1 same)
  | directory d =>
    exact Entry.alike_directory (fun _ => by cases d; rfl) (d.alike_settled path same)

end

mutual

/-- The files of a settled tree have the sizes that they claim, when those of the tree have that are
not empty. -/
theorem Directory.exact_settled (path : Path) (d : Directory)
    (holds : ∀ place ∈ d.allFiles path, place.2.size ≠ 0 →
      place.2.content.Holds sources place.2.size.toNat) : d.settled.Exact sources := by
  cases d with
  | mk mtime entries => exact entries.exact_settled path holds

theorem Entries.exact_settled (path : Path) (entries : Entries)
    (holds : ∀ place ∈ entries.allFiles path, place.2.size ≠ 0 →
      place.2.content.Holds sources place.2.size.toNat) : entries.settled.Exact sources := by
  cases entries with
  | nil => trivial
  | cons name entry rest =>
    obtain ⟨first, others⟩ := List.forall_mem_append.1 holds
    exact ⟨entry.exact_settled _ first, rest.exact_settled path others⟩

theorem Entry.exact_settled (path : Path) (entry : Entry)
    (holds : ∀ place ∈ entry.allFiles path, place.2.size ≠ 0 →
      place.2.content.Holds sources place.2.size.toNat) : entry.settled.Exact sources := by
  cases entry with
  | file f =>
    have full := List.forall_mem_singleton.1 holds
    show f.settled.content.Holds sources f.settled.size.toNat
    unfold File.settled
    by_cases empty : f.size = 0
    · rw [if_pos empty]
      exact Content.holds_inline.2 (congrArg UInt64.toNat empty).symm
    · rw [if_neg empty]
      exact full empty
  | directory d => exact d.exact_settled path holds

end

namespace Directory

variable {root : Directory} {before after : Output} {s : Summary} {bytes : ByteArray}

/-- A run that succeeds has found a layout. -/
theorem placeable_of_compile (run : root.compile sources o before = (.ok s, after)) :
    root.Placeable o := by
  by_contra placeable
  obtain ⟨e, _, failed⟩ := compile_of_not_placeable placeable sources before
  cases run.symm.trans failed

theorem Alike.placeable_iff {root' : Directory} (alike : root.Alike o sources sources' root') :
    root.Placeable o ↔ root'.Placeable o := by
  rw [← refusal?_eq_none_iff, ← refusal?_eq_none_iff, alike.refusal?_eq]

theorem totalBlocks_settled (root : Directory) :
    root.settled.totalBlocks o = root.totalBlocks o := by
  have none : Sources := fun _ => .error (.described "missing")
  have alike : root.Alike o none none root.settled :=
    root.alike_settled Layout.rootPath fun _ _ _ => rfl
  simp only [totalBlocks, dataStart, alike.tableBlocks, alike.dataBlocks]

/-- A tree that has an image has a layout, and its settled tree is exact and has the same
encoding. -/
theorem settled_of_compile (run : root.compile sources o before = (.ok s, after)) :
    root.settled.Placeable o ∧ root.settled.Exact sources
      ∧ root.settled.encode o sources = root.encode o sources := by
  have alike : root.Alike o sources sources root.settled :=
    root.alike_settled Layout.rootPath fun _ _ _ => rfl
  exact ⟨alike.placeable_iff.1 (placeable_of_compile run),
    root.exact_settled _ ((placeable_of_compile run).holds_of_compile run),
    alike.encode_eq.symm⟩

/-- A tree with a layout has an image when the files that are not empty are as large as they
claim. -/
theorem Placeable.image_of_holds (placeable : root.Placeable o)
    (holds : ∀ place ∈ root.allFiles Layout.rootPath, place.2.size ≠ 0 →
      place.2.content.Holds sources place.2.size.toNat) :
    ∃ bytes, root.image sources o = .ok bytes
      ∧ Bytes.ofBuffer bytes = root.settled.encode o sources := by
  have alike : root.Alike o sources sources root.settled :=
    root.alike_settled Layout.rootPath fun _ _ _ => rfl
  have readable : (root.layout o).Readable sources := by
    intro f mem
    obtain ⟨place, found, filled, file⟩ := placeable.tiling.exists_place mem
    rw [file.content, file.size]
    exact holds place found filled
  obtain ⟨after, run, encoded⟩ := placeable.compile_accepting readable (.hole 0)
  refine ⟨after.content.toBuffer, ?_, ?_⟩
  · simp only [image, run]
    rfl
  · rw [Blob.ofBuffer_toBuffer, encoded, alike.encode_eq]

theorem compile_of_image (image : root.image sources o = .ok bytes) :
    ∃ s after, root.compile sources o (.accepting (.hole 0)) = (.ok s, after) := by
  rcases run : root.compile sources o (.accepting (.hole 0)) with ⟨result, after⟩
  cases result with
  | error e =>
    simp only [Directory.image, run] at image
    cases image
  | ok s => exact ⟨s, after, rfl⟩

theorem settled_of_image (image : root.image sources o = .ok bytes) :
    root.settled.Placeable o ∧ root.settled.Exact sources
      ∧ Bytes.ofBuffer bytes = root.settled.encode o sources := by
  obtain ⟨s, after, run⟩ := compile_of_image image
  obtain ⟨placeable, exact, encoded⟩ := settled_of_compile run
  exact ⟨placeable, exact, (image_eq_ok image).2.trans encoded.symm⟩

/-- The trees that have images. -/
theorem exists_image_iff : (∃ bytes, root.image sources o = .ok bytes) ↔ root.Placeable o
    ∧ ∀ place ∈ root.allFiles Layout.rootPath, place.2.size ≠ 0 →
      place.2.content.Holds sources place.2.size.toNat := by
  constructor
  · rintro ⟨bytes, image⟩
    obtain ⟨s, after, run⟩ := compile_of_image image
    exact ⟨placeable_of_compile run, (placeable_of_compile run).holds_of_compile run⟩
  · rintro ⟨placeable, holds⟩
    obtain ⟨bytes, image, _⟩ := placeable.image_of_holds holds
    exact ⟨bytes, image⟩

/-- A tree that has a layout but no image has a file, not an empty one, that cannot be read or has
not the size that it claims. -/
theorem Placeable.lacks_of_no_image (placeable : root.Placeable o)
    (none : ∀ bytes, root.image sources o ≠ .ok bytes) :
    ∃ place ∈ root.allFiles Layout.rootPath, place.2.size ≠ 0
      ∧ ¬ place.2.content.Holds sources place.2.size.toNat
      ∧ ∃ cause, root.image sources o = Fault.fail (.unreadableSource place.1 cause) := by
  rcases run : root.compile sources o (.accepting (.hole 0)) with ⟨result, after⟩
  have image : root.image sources o = result.map fun _ => after.content.toBuffer := by
    simp only [Directory.image, run]
  cases result with
  | ok s => exact absurd image (none _)
  | error e =>
    obtain ⟨_, _, _, _, no, _⟩ | ⟨place, mem, filled, lacks, cause, rfl⟩ :=
      placeable.blame_of_compile run
    · cases no
    · exact ⟨place, mem, filled, lacks, cause, image⟩

/-- What a run leaves is the image of the tree, over all sources that have what the run found, and
as long as the run says. -/
theorem image_of_compile (run : root.compile sources o before = (.ok s, after))
    (more : ∀ path source, sources path = .ok source → source.content.size ≠ 0 →
      sources' path = .ok source) :
    ∃ bytes, root.image sources' o = .ok bytes ∧ Bytes.ofBuffer bytes = after.content.toList
      ∧ bytes.size = s.imageLength := by
  have full := (placeable_of_compile run).holds_of_compile run
  have same (place : Path × File) (mem : place ∈ root.allFiles Layout.rootPath)
      (filled : place.2.size ≠ 0) : place.2.content.Holds sources' place.2.size.toNat
        ∧ place.2.content.bytes sources = place.2.content.bytes sources' := by
    obtain ⟨source, found, whole, size⟩ := full place mem filled
    have found' : place.2.content.source sources' = .ok source := by
      cases content : place.2.content with
      | inline bytes =>
        rw [content] at found
        exact found
      | host path =>
        rw [content] at found
        refine more path source found ?_
        rw [size]
        exact fun zero => filled (UInt64.toNat_inj.1 zero)
    refine ⟨⟨source, found', whole, size⟩, ?_⟩
    simp only [Content.bytes, found, found']
  have exact' : root.settled.Exact sources' :=
    root.exact_settled _ fun place mem filled => (same place mem filled).1
  have alike : root.Alike o sources sources' root.settled :=
    root.alike_settled _ fun place mem filled => (same place mem filled).2
  have placeable := placeable_of_compile run
  obtain ⟨rfl, _, encoded⟩ := placeable.of_compile_ok run
  obtain ⟨bytes, image, encoded'⟩ := placeable.image_of_holds
    fun place mem filled => (same place mem filled).1
  refine ⟨bytes, image, ?_, ?_⟩
  · rw [encoded', encoded, alike.encode_eq]
  · have total : (root.summary o).totalBlocks.toNat = root.totalBlocks o :=
      UInt32.toNat_ofNat_of_lt' placeable.totalBlocks_lt
    have blocks : root.settled.totalBlocks o = root.totalBlocks o := by
      simp only [totalBlocks, dataStart, alike.tableBlocks, alike.dataBlocks]
    rw [← Buffer.length_ofBuffer, encoded',
      (alike.placeable_iff.1 placeable).length_encode exact', blocks, Summary.imageLength, total]
    rfl

end Directory

end

end FlatImage
