import FlatImage.Proofs.Host.Reaching
import FlatImage.Proofs.Host.Restoration
import FlatImage.Proofs.Host.Walking
import FlatImage.Proofs.Layout.Admission

/-!
# Copying a directory through an image

A directory is walked, its tree is compiled, and the image is unpacked into an empty directory. What
an image keeps of a node shows there under the same names, and the copy can be walked and compiled
in its turn. Both walks go down from directory to directory; only the bytes of files are read by
paths, and the one way to fail is a path that is too long to be opened.
-/

namespace FlatImage

open Host (Node Nodes Location)

/-! ## The tree of a directory -/

/-- There is room for the image of a tree. Names and sizes of files are not counted here. -/
structure Directory.Fits (o : Options) (root : Directory) : Prop where
  /-- A record holds the size of a table. -/
  directories : ∀ place ∈ root.entries.directories Layout.rootPath,
    place.2.size * Geometry.recordSize < UInt32.size
  entries : root.count < UInt32.size
  blocks : root.totalBlocks o ≤ o.maxBlocks.toNat

namespace Host

/-- What an image keeps of a node, without what is below it. -/
def Node.copied : Node → Option Node
  | .file f => some (.file ⟨.ofBuffer f.content.toBuffer, f.mtime, false⟩)
  | .directory mtime _ => some (.directory mtime .nil)
  | .link _ => none
  | .special .. => none

/-- The paths of all files below a directory that are not empty are short enough to be opened. A
path is made by joining names, however the files were found. -/
def Openable (h : Host) (path : Path) (loc : Location) : Prop :=
  ∀ names f, h.at? (loc ++ names) = some (.file f) → f.content.size ≠ 0 →
    (path.joinAll names).length < tooLongPath

namespace Walkable

variable {o : Options} {h : Host} {path : Path} {loc : Location} {mtime : Int64} {nodes : Nodes}
variable {names : List Bytes}

/-- The tree has a layout if there is room for it. -/
theorem placeable_iff (w : Walkable o h path loc mtime nodes) (valid : o.validate = .ok ()) :
    (nodes.tree path mtime).Placeable o ↔ (nodes.tree path mtime).Fits o := by
  have ordered := nodes.ordered_tree path mtime
  constructor
  · intro placeable
    have admissible := Directory.placeable_iff_admissible.1 placeable
    exact ⟨admissible.directories, admissible.entries, placeable.totalBlocks_le⟩
  · intro fits
    obtain ⟨block, size, blocks⟩ := Options.validate_eq_ok_iff.1 valid
    refine Directory.placeable_iff_admissible.2 {
      blockSize := Options.blockSize_of_validate valid
      maxFileSize := Nat.lt_of_le_of_lt (UInt64.le_iff_toNat_le.1 size) (by decide)
      maxBlocks := UInt32.le_iff_toNat_le.1 blocks
      names := ?_
      files := ?_
      directories := fits.directories
      entries := fits.entries
      blocks := Directory.totalBlocks_eq_sum o _ ▸ fits.blocks }
    · intro name mem
      obtain ⟨names, entry, there, last⟩ := Directory.at?_of_mem_names _ ordered mem
      rw [w.at?_tree] at there
      obtain ⟨node, found, walked⟩ := Option.bind_eq_some_iff.1 there
      have kept : node.isKept := by
        cases node with
        | file => rfl
        | directory => rfl
        | _ => cases walked
      exact ((w.storable_of_at? found).2 kept).1 name (List.mem_of_getLast? last)
    · intro place mem
      obtain ⟨names, _, there⟩ := Directory.at?_of_mem_allFiles _ _ ordered mem
      obtain ⟨f, _, small, same⟩ := w.file_of_tree there
      rw [same, UInt64.le_iff_toNat_le, toNat_size small]
      exact small

theorem sources_file (w : Walkable o h path loc mtime nodes) {f : File}
    (there : h.at? (loc ++ names) = some (.file f))
    (short : (path.joinAll names).length < tooLongPath) :
    h.sources (path.joinAll names) = .ok { content := f.content } := by
  have checked := ((w.storable_of_at? there).2 rfl).1
  have content := (reaches_of_openDirectory w.opened).read_joinAll checked
    (w.ne_nil_of_file there) there short
  rw [sources, content]
  rfl

/-- The files of the tree can be read and have their sizes, if their paths can be opened, and not
otherwise. Empty files are not asked for. -/
theorem holds_iff (w : Walkable o h path loc mtime nodes) :
    (∀ place ∈ (nodes.tree path mtime).allFiles Layout.rootPath, place.2.size ≠ 0 →
        place.2.content.Holds h.sources place.2.size.toNat) ↔ h.Openable path loc := by
  constructor
  · intro holds names f there filled
    have small : f.content.size ≤ o.maxFileSize.toNat := (w.storable_of_at? there).1
    have listed : (Entry.directory (nodes.tree path mtime)).at? names = some (.file
        ⟨f.mtime, UInt64.ofNat f.content.size, .host (path.joinAll names)⟩) := by
      rw [w.at?_tree, there]
      rfl
    have size : UInt64.ofNat f.content.size ≠ 0 := fun zero => filled
      ((toNat_size small).symm.trans (congrArg UInt64.toNat zero))
    obtain ⟨source, found, _⟩ := holds _ (Entry.mem_allFiles_of_at? listed) size
    by_contra long
    exact not_sources_of_long (Nat.le_of_not_lt long) source found
  · intro openable place mem filled
    obtain ⟨names, _, there⟩ :=
      Directory.at?_of_mem_allFiles _ _ (nodes.ordered_tree path mtime) mem
    obtain ⟨f, found, small, same⟩ := w.file_of_tree there
    rw [same] at filled ⊢
    have short := openable names f found fun zero => filled (by rw [zero]; rfl)
    exact ⟨_, w.sources_file found short, rfl, (toNat_size small).symm⟩

/-- The trees that have images. -/
theorem exists_image_iff (w : Walkable o h path loc mtime nodes) (valid : o.validate = .ok ()) :
    (∃ bytes, (nodes.tree path mtime).image h.sources o = .ok bytes)
      ↔ (nodes.tree path mtime).Fits o ∧ h.Openable path loc := by
  rw [Directory.exists_image_iff, w.placeable_iff valid, w.holds_iff]

theorem openable_of_image (w : Walkable o h path loc mtime nodes) {bytes : ByteArray}
    (image : (nodes.tree path mtime).image h.sources o = .ok bytes) : h.Openable path loc :=
  w.holds_iff.1 (Directory.exists_image_iff.1 ⟨bytes, image⟩).2

end Walkable

/-! ## What is there afterwards -/

section

variable {o : Options} {h : Host} {path : Path} {loc : Location} {mtime : Int64} {nodes : Nodes}
variable {names : List Bytes}

theorem toInt_recordedMtime (plain : o.timestamp = none) (mtime : Int64) :
    (Layout.recordedMtime o mtime).toInt64.toInt = mtime.toInt.toNat := by
  have small := mtime.toInt_lt
  rw [Layout.recordedMtime, plain, Option.getD_none, UInt64.toInt64_ofNat',
    Int64.toInt_ofNat_of_lt (by omega)]

theorem toInt64_recordedMtime (plain : o.timestamp = none) {mtime : Int64}
    (late : 0 ≤ mtime.toInt) : (Layout.recordedMtime o mtime).toInt64 = mtime := by
  apply Int64.toInt_inj.1
  rw [toInt_recordedMtime plain, Int.toNat_of_nonneg late]

/-- The tree shows in its image what an image keeps of the directory. -/
theorem Walkable.shown (w : Walkable o h path loc mtime nodes) (plain : o.timestamp = none)
    (openable : h.Openable path loc) (below : names ≠ []) :
    ((Entry.directory (nodes.tree path mtime)).at? names).map (Entry.unpacked o h.sources)
      = (h.at? (loc ++ names)).bind Node.copied := by
  rw [w.at?_tree]
  cases there : h.at? (loc ++ names) with
  | none => rfl
  | some node =>
    obtain ⟨stored, kept⟩ := w.storable_of_at? there
    cases node with
    | file f =>
      have stamp := toInt64_recordedMtime plain ((kept rfl).2 below f.mtime rfl)
      have data : (FlatImage.File.settled ⟨f.mtime, UInt64.ofNat f.content.size,
          .host (path.joinAll names)⟩).content.bytes h.sources = f.content.toList := by
        unfold FlatImage.File.settled
        split
        · next zero =>
          have none : f.content.size = 0 :=
            (toNat_size stored).symm.trans (congrArg UInt64.toNat zero)
          rw [List.length_eq_zero_iff.1 (f.content.length_toList.trans none)]
          rfl
        · next filled =>
          have short := openable names f there fun zero => filled (by rw [zero]; rfl)
          simp only [Content.bytes, Content.source, w.sources_file there short]
      have buffer : f.content.toList.toBuffer = f.content.toBuffer := Buffer.ofBuffer_injective
        ((Bytes.ofBuffer_toBuffer _).trans f.content.ofBuffer_toBuffer.symm)
      simp only [Option.bind_some, Node.walked, Option.map_some, Entry.unpacked, Node.copied, data,
        buffer, stamp]
    | directory own entries =>
      have stamp := toInt64_recordedMtime plain ((kept rfl).2 below own rfl)
      have mtime : (entries.walked (path.joinAll names) (.mk own .nil)).mtime = own :=
        entries.mtime_walked ..
      simp only [Option.bind_some, Node.walked, Option.map_some, Entry.unpacked, Node.copied, mtime,
        stamp]
    | link => rfl
    | special => rfl

end

end Host

/-! ## The copy can be walked -/

section

variable {o : Options} {sources : Sources}

mutual

/-- Entries that are made from an image can be stored again. -/
theorem Entries.storable_restored (plain : o.timestamp = none) {path : Path} {counted data : Nat}
    (entries : Entries) (placed : entries.offence? o path counted data = none)
    (exact : entries.Exact sources) (ordered : entries.ordered) {before : Nodes}
    (storable : before.Storable o)
    (new : ∀ name, entries.find? name ≠ none → before.find? name = none) :
    (entries.restored o sources before).Storable o := by
  cases entries with
  | nil => exact storable
  | cons name entry rest =>
    simp only [Entries.offence?, Option.or_eq_none_iff] at placed
    have own_new : before.find? name = none :=
      new name (by rw [Entries.find?_cons_self]; exact nofun)
    have new' := Entries.new_behind ordered new (entry.restored o sources)
    simp only [Entries.ordered, Bool.and_eq_true] at ordered
    have checked := (Entry.refusal?_eq_none_iff.1 (Entry.refusal?_of_offence? placed.1)).1
    have recordable : (entry.restored o sources).Recordable name := by
      refine fun _ => ⟨checked, ?_⟩
      cases entry <;>
      · rintro _ ⟨⟩
        rw [Host.toInt_recordedMtime plain]
        exact Int.natCast_nonneg _
    exact rest.storable_restored plain placed.2 exact.2 ordered.2
      ⟨recordable, own_new, entry.storable_restored plain placed.1 exact.1 ordered.1.2, storable⟩
      new'

theorem Entry.storable_restored (plain : o.timestamp = none) {path : Path} {name : Bytes}
    {counted data : Nat} (entry : Entry) (placed : entry.offence? o path name counted data = none)
    (exact : entry.Exact sources) (ordered : entry.ordered) :
    (entry.restored o sources).Storable o := by
  cases entry with
  | file f =>
    have refused := (Entry.refusal?_eq_none_iff.1 (Entry.refusal?_of_offence? placed)).2.2
    have small := (Entry.sizeRefusal?_file_eq_none_iff.1 refused).1
    show (Blob.ofBuffer (f.content.bytes sources).toBuffer).size ≤ _
    rw [Blob.size_ofBuffer, ← Buffer.length_ofBuffer, Bytes.ofBuffer_toBuffer,
      Content.Holds.length_bytes exact]
    exact UInt64.le_iff_toNat_le.1 small
  | directory d =>
    cases d with
    | mk mtime entries =>
      simp only [Entry.offence?, Option.or_eq_none_iff] at placed
      exact entries.storable_restored plain placed.2 exact ordered trivial fun _ _ => rfl

end

/-- What is made in a directory does not show outside of it. -/
theorem Entries.view_restoreIn_of_not_prefix (entries : Entries) (h : Host) {dir loc : Location}
    (outside : ¬ dir <+: loc) : (entries.restoreIn o sources dir h).view loc = h.view loc := by
  cases entries with
  | nil => rfl
  | cons name entry rest =>
    exact (rest.view_restoreIn_of_not_prefix _ outside).trans
      (Host.view_update_of_not_prefix _ outside)

theorem Entries.current_restoreIn (entries : Entries) (h : Host) (dir : Location) :
    (entries.restoreIn o sources dir h).current = h.current := by
  cases entries with
  | nil => rfl
  | cons name entry rest => exact rest.current_restoreIn _ dir

/-- Entries that are made in an empty directory are all that is new. -/
theorem Entries.extends_restoreIn (entries : Entries) {h : Host} {dir : Location} {mtime : Int64}
    (empty : h.at? dir = some (.directory mtime .nil)) :
    h.Extends (entries.restoreIn o sources dir h) where
  current := entries.current_restoreIn h dir
  view loc := by
    by_cases outside : dir <+: loc
    · obtain ⟨below, rfl⟩ := outside
      cases below with
      | nil =>
        obtain ⟨stamp, is⟩ : ∃ stamp, (entries.restoreIn o sources dir h).at? dir
          = some (.directory stamp (entries.restored o sources .nil)) := entries.at?_restoreIn empty
        rw [List.append_nil]
        exact .inr (.inl ⟨Host.isDirectory_iff.2 ⟨_, _, empty⟩, Host.isDirectory_iff.2 ⟨_, _, is⟩⟩)
      | cons name rest =>
        refine .inr (.inr (Host.view_eq_none_iff.2 ?_))
        rw [Host.at?_append, empty]
        rfl
    · exact .inl (entries.view_restoreIn_of_not_prefix h outside)

end

namespace Host

variable {o : Options} {sources : Sources}

/-- What an image keeps of a node does not depend on what is below it. -/
theorem Node.copied_shell (node : Node) : node.shell.copied = node.copied := by
  cases node <;> rfl

variable {h : Host} {path source dest : Path} {loc s d : Location} {mtime mtime' : Int64}
variable {nodes : Nodes}

theorem copied_of_view {h' : Host} {loc loc' : Location}
    (copied : h'.view loc' = (h.at? loc).bind Node.copied) :
    (h'.at? loc').bind Node.copied = (h.at? loc).bind Node.copied := by
  have shown : (h'.at? loc').bind Node.copied = (h'.view loc').bind Node.copied := by
    rw [Host.view]
    cases h'.at? loc' with
    | none => rfl
    | some node => exact node.copied_shell.symm
  rw [shown, copied]
  cases h.at? loc with
  | none => rfl
  | some node => cases node <;> rfl

/-- A file is kept as a file of the same size. -/
theorem file_of_copied {h' : Host} {loc loc' : Location} {f : File}
    (same : (h.at? loc).bind Node.copied = (h'.at? loc').bind Node.copied)
    (there : h.at? loc = some (.file f)) :
    ∃ f', h'.at? loc' = some (.file f') ∧ f'.content.size = f.content.size := by
  rw [there, Option.bind_some] at same
  obtain ⟨node, found, copied⟩ := Option.bind_eq_some_iff.1 same.symm
  cases node with
  | file f' =>
    refine ⟨f', found, ?_⟩
    simp only [Node.copied, Option.some.injEq, Node.file.injEq, File.mk.injEq, Blob.ofBuffer,
      Blob.mk.injEq] at copied
    rw [← f'.content.size_toBuffer, copied.1.1, f.content.size_toBuffer]
  | _ => cases copied

theorem Openable.congr {h' : Host} {nodes' : Nodes} (openable : h.Openable path s)
    (w' : Walkable o h' dest d mtime' nodes')
    (same : ∀ names, names ≠ [] →
      (h'.at? (d ++ names)).bind Node.copied = (h.at? (s ++ names)).bind Node.copied) :
    h'.Openable path d := by
  intro names f there filled
  obtain ⟨f', there', size⟩ := file_of_copied (same names (w'.ne_nil_of_file there)) there
  exact openable names f' there' (size ▸ filled)

/-- A run ends at a file whose path is too long to be opened. -/
def EndsUnopened (h : Host) (path : Path) (loc : Location)
    (run : Except (Fault RunError) ByteArray) : Prop :=
  ∃ names f cause, h.at? (loc ++ names) = some (.file f) ∧ tooLongPath ≤ (path.joinAll names).length
    ∧ run = Fault.fail (.unreadableSource (Layout.rootPath.joinAll names) cause)

namespace Walkable

/-- A tree that has a layout and no image has a file whose path is too long. -/
theorem endsUnopened (w : Walkable o h path loc mtime nodes)
    (placeable : (nodes.tree path mtime).Placeable o) (unopenable : ¬ h.Openable path loc) :
    h.EndsUnopened path loc ((nodes.tree path mtime).image h.sources o) := by
  have none (bytes : ByteArray) : (nodes.tree path mtime).image h.sources o ≠ .ok bytes :=
    fun image => unopenable (w.openable_of_image image)
  obtain ⟨place, mem, filled, lacks, cause, image⟩ := placeable.lacks_of_no_image none
  obtain ⟨names, listed, there⟩ :=
    Directory.at?_of_mem_allFiles _ _ (nodes.ordered_tree path mtime) mem
  obtain ⟨f, found, small, same⟩ := w.file_of_tree there
  refine ⟨names, f, cause, found, ?_, listed ▸ image⟩
  by_contra short
  rw [same] at lacks
  exact lacks ⟨_, w.sources_file found (Nat.lt_of_not_le short), rfl, (toNat_size small).symm⟩

/-- The image is unpacked into an empty directory, and what is there then can be walked as well. -/
theorem unpack_tree (w : Walkable o h source s mtime nodes) (plain : o.timestamp = none)
    (target : h.openDirectory dest true = .ok d)
    (empty : h.at? d = some (.directory mtime' .nil)) {bytes : ByteArray}
    (image : (nodes.tree source mtime).image h.sources o = .ok bytes) :
    ∃ img h' stamp copy, Image.ofBytes bytes = .ok img ∧ h.unpack img dest = (.ok (), h')
      ∧ (∀ names, names ≠ [] → h'.view (d ++ names) = (h.at? (s ++ names)).bind Node.copied)
      ∧ Walkable o h' dest d stamp copy := by
  have ordered := nodes.ordered_tree source mtime
  have shown (names : List Bytes) (below : names ≠ []) :=
    w.shown plain (w.openable_of_image image) below
  generalize nodes.tree source mtime = root at image ordered shown
  obtain ⟨placeable, exact, encoded⟩ := Directory.settled_of_image image
  have ordered' : root.settled.ordered := root.ordered_settled.trans ordered
  obtain ⟨stamp, there⟩ : ∃ stamp, (root.settled.entries.restoreIn o h.sources d h).at? d
      = some (.directory stamp (root.settled.entries.restored o h.sources .nil)) :=
    root.settled.entries.at?_restoreIn empty
  have restorable : o.Restorable := by
    rintro t stamp
    cases plain.symm.trans stamp
  refine ⟨_, _, stamp, _, placeable.ofBytes_eq_opened exact encoded,
    placeable.unpack_of_restorable exact ordered' encoded target empty (.inl restorable), ?_,
    (root.settled.entries.extends_restoreIn empty).openDirectory target, there, ?_⟩
  · intro names below
    rw [Directory.view_restoreIn ordered empty below]
    exact shown names below
  · exact root.settled.entries.storable_restored plain placeable.entries_placed
      (Directory.entries_exact exact) (Directory.entries_ordered ordered') trivial fun _ _ => rfl

/-- Directories that show the same, as far as an image keeps it, have the same image. -/
theorem image_congr {h' : Host} {nodes' : Nodes} (w : Walkable o h source s mtime nodes)
    (w' : Walkable o h' dest d mtime' nodes') (plain : o.timestamp = none)
    (same : ∀ names, names ≠ [] →
      (h'.at? (d ++ names)).bind Node.copied = (h.at? (s ++ names)).bind Node.copied)
    (openable' : h'.Openable dest d) {bytes : ByteArray}
    (image : (nodes.tree source mtime).image h.sources o = .ok bytes) :
    (nodes'.tree dest mtime').image h'.sources o = .ok bytes := by
  have openable := w.openable_of_image image
  have shown (names : List Bytes) (below : names ≠ []) :=
    ((w.shown plain openable below).trans (same names below).symm).trans
      (w'.shown plain openable' below).symm
  have holds' := w'.holds_iff.2 openable'
  have ordered := nodes.ordered_tree source mtime
  have ordered' := nodes'.ordered_tree dest mtime'
  generalize nodes.tree source mtime = root at *
  generalize nodes'.tree dest mtime' = root' at *
  obtain ⟨placeable, exact, encoded⟩ := Directory.settled_of_image image
  have exact' : root'.settled.Exact h'.sources := root'.exact_settled _ holds'
  have agree : root.settled.Agrees o h.sources h'.sources root'.settled := by
    cases root with
    | mk _ entries =>
      cases root' with
      | mk _ entries' =>
        exact (Directory.agrees_iff ..).2 (entries.listing_eq_of_shown entries' ordered ordered'
          fun name rest => shown (name :: rest) (List.cons_ne_nil name rest))
  have alike : root.settled.Alike o h.sources h'.sources root'.settled := agree.alike exact exact'
  have own : root'.Alike o h'.sources h'.sources root'.settled :=
    root'.alike_settled Layout.rootPath fun _ _ _ => rfl
  have placeable' : root'.Placeable o :=
    own.placeable_iff.2 (alike.placeable_iff.1 placeable)
  obtain ⟨bytes', image', encoded'⟩ := placeable'.image_of_holds holds'
  obtain rfl : bytes' = bytes :=
    Buffer.ofBuffer_injective (encoded'.trans (alike.encode_eq.symm.trans encoded.symm))
  exact image'

end Walkable

/-- A directory of which everything can be stored is walked without fail. Its tree has an image
exactly when there is room for it and no path of a file that is not empty is too long to be opened:
a walk goes down from directory to directory and meets no such limit, but the bytes of a file are
read by its whole path, and a run over a longer one ends there. Every image is unpacked into an
empty directory without fail, and then there are the files and directories that are found without
following links, with the same bytes and modification times, and nothing else. A walk over the copy
gives the same image again, unless the paths of its files are too long. -/
theorem roundTrip (valid : o.validate = .ok ()) (plain : o.timestamp = none)
    (opened : h.openDirectory source true = .ok s)
    (is : h.at? s = some (.directory mtime nodes)) (storable : nodes.Storable o)
    (target : h.openDirectory dest true = .ok d)
    (empty : h.at? d = some (.directory mtime' .nil)) :
    ∃ root, h.readTree source o = .ok root
      ∧ ((∃ bytes, root.image h.sources o = .ok bytes) ↔ root.Fits o ∧ h.Openable source s)
      ∧ (root.Fits o → ¬ h.Openable source s → h.EndsUnopened source s (root.image h.sources o))
      ∧ ∀ bytes, root.image h.sources o = .ok bytes → ∃ img h',
        Image.ofBytes bytes = .ok img ∧ h.unpack img dest = (.ok (), h')
          ∧ (∀ names, names ≠ [] →
            h'.view (d ++ names) = (h.at? (s ++ names)).bind Node.copied)
          ∧ ∃ root', h'.readTree dest o = .ok root'
            ∧ (root'.image h'.sources o = .ok bytes ↔ h.Openable dest s) := by
  have w : Walkable o h source s mtime nodes := ⟨opened, is, storable⟩
  refine ⟨nodes.tree source mtime, w.readTree, w.exists_image_iff valid, ?_, ?_⟩
  · intro fits
    exact w.endsUnopened ((w.placeable_iff valid).2 fits)
  · intro bytes image
    obtain ⟨img, h', stamp, copy, opens, unpacks, views, w'⟩ :=
      w.unpack_tree plain target empty image
    have same (names : List Bytes) (below : names ≠ []) :
        (h'.at? (d ++ names)).bind Node.copied = (h.at? (s ++ names)).bind Node.copied :=
      copied_of_view (views names below)
    refine ⟨img, h', opens, unpacks, views, copy.tree dest stamp, w'.readTree, ?_⟩
    constructor
    · intro image'
      exact (w'.openable_of_image image').congr w fun names below => (same names below).symm
    · intro openable
      exact w.image_congr w' plain same (openable.congr w' same) image

/-! ## Two hosts -/

/-- A host whose directory `s` has a file of three bytes, a link and an empty directory, and whose
directory `d` is empty. -/
def desk : Host where
  root := .directory 0
    (.cons [0x73] (.directory 5 (.cons [0x66] (.file ⟨.ofBuffer ⟨#[1, 2, 3]⟩, 7, false⟩)
      (.cons [0x6c] (.link [0x66]) (.cons [0x65] (.directory 6 .nil) .nil))))
    (.cons [0x64] (.directory 0 .nil) .nil))
  current := []
  now := 9

theorem openable_desk {path : Path} (short : (Path.join path [0x66]).length < tooLongPath) :
    desk.Openable path [[0x73]] := by
  intro names f there _
  cases names with
  | nil => cases there
  | cons name rest =>
    simp only [desk, List.singleton_append, at?, Node.at?, Nodes.find?, if_true] at there
    by_cases is : [0x66] = name
    · subst is
      cases rest with
      | nil => exact short
      | cons => cases there
    · -- The other entries are a link and a directory without entries.
      rw [if_neg is] at there
      split at there
      · next node found =>
        split at found
        · cases found
          cases rest <;> cases there
        · split at found
          · cases found
            cases rest <;> cases there
          · cases found
      · cases there

/-- The directory is copied but for the link, and the copy has the same image. -/
theorem roundTrip_desk : ∃ root bytes img h' root', desk.readTree [0x73] {} = .ok root
    ∧ root.image desk.sources {} = .ok bytes ∧ Image.ofBytes bytes = .ok img
    ∧ desk.unpack img [0x64] = (.ok (), h')
    ∧ h'.view [[0x64], [0x66]] = some (.file ⟨.ofBuffer ⟨#[1, 2, 3]⟩, 7, false⟩)
    ∧ h'.view [[0x64], [0x6c]] = none
    ∧ h'.readTree [0x64] {} = .ok root' ∧ root'.image h'.sources {} = .ok bytes := by
  have storable : (Nodes.cons [0x66] (.file ⟨.ofBuffer ⟨#[1, 2, 3]⟩, 7, false⟩)
      (.cons [0x6c] (.link [0x66]) (.cons [0x65] (.directory 6 .nil) .nil))).Storable {} := by
    refine ⟨fun _ => ⟨rfl, ?_⟩, rfl, (by decide : 3 ≤ _), nofun, rfl, trivial, fun _ => ⟨rfl, ?_⟩,
      rfl, trivial, trivial⟩ <;>
    · rintro _ ⟨⟩
      decide
  have opened : desk.openDirectory [0x73] true = .ok [[0x73]] := openDirectory_of_name rfl rfl
  have target : desk.openDirectory [0x64] true = .ok [[0x64]] := openDirectory_of_name rfl rfl
  obtain ⟨root, walked, iff, _, copies⟩ :=
    roundTrip (by decide) rfl opened rfl storable target rfl
  have fits : root.Fits {} := by
    have w : Walkable {} desk [0x73] _ _ _ := ⟨opened, rfl, storable⟩
    obtain rfl := Except.ok.inj (walked.symm.trans w.readTree)
    exact ⟨by decide, by decide, by decide⟩
  obtain ⟨bytes, image⟩ := iff.2 ⟨fits, openable_desk (by decide)⟩
  obtain ⟨img, h', opens, unpacks, views, root', walked', again⟩ := copies bytes image
  exact ⟨root, bytes, img, h', root', walked, image, opens, unpacks, views [[0x66]] nofun,
    views [[0x6c]] nofun, walked', again.2 (openable_desk (by decide))⟩

/-- Directories of one name inside each other, and a file in the innermost. -/
def nest (name : Bytes) : (depth : Nat) → Nodes
  | 0 => .cons [0x66] (.file ⟨.ofBuffer ⟨#[0x78]⟩, 7, false⟩) .nil
  | depth + 1 => .cons name (.directory 7 (nest name depth)) .nil

def wide : Bytes := List.replicate 36 0x6e

/-- A host whose directory `s` has 111 directories inside each other. -/
def well : Host := ⟨.directory 0 (.cons [0x73] (.directory 7 (nest wide 111)) .nil), [], 9⟩

theorem nest_storable {name : Bytes} (checked : Name.check name = .ok ()) (depth : Nat) :
    (nest name depth).Storable {} := by
  induction depth with
  | zero =>
    refine ⟨fun _ => ⟨rfl, ?_⟩, rfl, (by decide : 1 ≤ _), trivial⟩
    rintro _ ⟨⟩
    decide
  | succ depth ih =>
    refine ⟨fun _ => ⟨checked, ?_⟩, rfl, ih, trivial⟩
    rintro _ ⟨⟩
    decide

theorem at?_nest (name : Bytes) (depth : Nat) (mtime : Int64) :
    (Node.directory mtime (nest name depth)).at? (List.replicate depth name ++ [[0x66]])
      = some (.file ⟨.ofBuffer ⟨#[0x78]⟩, 7, false⟩) := by
  induction depth generalizing mtime with
  | zero => rfl
  | succ depth ih =>
    rw [List.replicate_succ, List.cons_append, Node.at?, nest, Nodes.find?, if_pos rfl]
    exact ih 7

/-- The directory can be stored, and there is room for its image, but it has none, because the path
of the file has 4110 bytes. -/
theorem endsUnopened_well : ∃ root, well.openDirectory [0x73] true = .ok [[0x73]]
    ∧ well.at? [[0x73]] = some (.directory 7 (nest wide 111)) ∧ (nest wide 111).Storable {}
    ∧ well.readTree [0x73] {} = .ok root ∧ root.Fits {}
    ∧ well.EndsUnopened [0x73] [[0x73]] (root.image well.sources {}) := by
  have storable : (nest wide 111).Storable {} := nest_storable rfl 111
  have opened : well.openDirectory [0x73] true = .ok [[0x73]] := openDirectory_of_name rfl rfl
  have w : Walkable {} well [0x73] [[0x73]] 7 (nest wide 111) := ⟨opened, rfl, storable⟩
  have fits : ((nest wide 111).tree [0x73] 7).Fits {} :=
    ⟨by decide +kernel, by decide +kernel, by decide +kernel⟩
  refine ⟨_, opened, rfl, storable, w.readTree, fits,
    w.endsUnopened ((w.placeable_iff (by decide)).2 fits) fun openable => ?_⟩
  have there : well.at? ([[0x73]] ++ (List.replicate 111 wide ++ [[0x66]]))
      = some (.file ⟨.ofBuffer ⟨#[0x78]⟩, 7, false⟩) := by
    rw [at?_append]
    exact at?_nest wide 111 7
  have short := openable _ _ there (by decide)
  have long : ((Path.joinAll [0x73] (List.replicate 111 wide ++ [[0x66]])).length) = 4110 := by
    decide +kernel
  rw [long] at short
  exact absurd short (by decide)

end Host

end FlatImage
