import FlatImage.Host.Walk
import FlatImage.Proofs.Host.Following
import FlatImage.Proofs.Locations

/-!
# What a walk makes of a directory

A walk over a directory whose names and files can be stored gives a tree, and names lead in the tree
to the entry that stands for what they lead to on the host. Whatever is neither a file nor a
directory is left out.
-/

namespace FlatImage.Host

/-! ## What can be stored -/

/-- Files and directories are kept by a walk, links and special files are not. -/
def Node.isKept : Node → Bool
  | .file _ => true
  | .directory .. => true
  | .link _ => false
  | .special .. => false

/-- A record can hold a name and the modification time of its node. Nothing is asked of a node that
is not kept. -/
def Node.Recordable (name : Bytes) (node : Node) : Prop :=
  node.isKept → Name.check name = .ok () ∧ ∀ mtime, node.mtime? = some mtime → 0 ≤ mtime.toInt

mutual

/-- Everything in and below a node can be stored. -/
def Node.Storable (o : Options) : Node → Prop
  | .file f => f.content.size ≤ o.maxFileSize.toNat
  | .directory _ entries => entries.Storable o
  | .link _ => True
  | .special .. => True

/-- Entries of distinct names that can be stored. -/
def Nodes.Storable (o : Options) : Nodes → Prop
  | .nil => True
  | .cons name node rest =>
    node.Recordable name ∧ rest.find? name = none ∧ node.Storable o ∧ rest.Storable o

end

mutual

/-- No two entries of a directory have the same name. -/
def Node.Distinct : Node → Prop
  | .directory _ entries => entries.Distinct
  | .file _ => True
  | .link _ => True
  | .special .. => True

def Nodes.Distinct : Nodes → Prop
  | .nil => True
  | .cons name node rest => rest.find? name = none ∧ node.Distinct ∧ rest.Distinct

end

mutual

/-- A walk refuses nothing: names that are kept are accepted, and no file is too large. -/
def Node.Accepted (o : Options) : Node → Prop
  | .file f => f.content.size ≤ o.maxFileSize.toNat
  | .directory _ entries => entries.Accepted o
  | .link _ => True
  | .special .. => True

def Nodes.Accepted (o : Options) : Nodes → Prop
  | .nil => True
  | .cons name node rest =>
    (node.isKept → Name.check name = .ok ()) ∧ node.Accepted o ∧ rest.Accepted o

end

mutual

/-- What can be stored has names of its own, and a walk accepts it. -/
theorem Node.Storable.walkable {o : Options} (node : Node) (storable : node.Storable o) :
    node.Distinct ∧ node.Accepted o := by
  cases node with
  | file f => exact ⟨trivial, storable⟩
  | directory mtime entries => exact Nodes.Storable.walkable entries storable
  | link => exact ⟨trivial, trivial⟩
  | special => exact ⟨trivial, trivial⟩

theorem Nodes.Storable.walkable {o : Options} (nodes : Nodes) (storable : nodes.Storable o) :
    nodes.Distinct ∧ nodes.Accepted o := by
  cases nodes with
  | nil => exact ⟨trivial, trivial⟩
  | cons name node rest =>
    obtain ⟨recordable, own, first, others⟩ := storable
    obtain ⟨distinct, accepted⟩ := Node.Storable.walkable node first
    obtain ⟨distinct', accepted'⟩ := Nodes.Storable.walkable rest others
    exact ⟨⟨own, distinct, distinct'⟩, (recordable · |>.1), accepted, accepted'⟩

end

/-! ## The tree of a walk -/

mutual

/-- The entry that stands for the node at a path, if it is kept. -/
def Node.walked (path : Path) : Node → Option Entry
  | .file f => some <| .file
      { mtime := f.mtime, size := UInt64.ofNat f.content.size, content := .host path }
  | .directory mtime entries => some <| .directory (entries.walked path (.mk mtime .nil))
  | .link _ => none
  | .special .. => none

/-- A directory with the entries that stand for those of the host directory at a path. -/
def Nodes.walked (path : Path) (d : FlatImage.Directory) : Nodes → FlatImage.Directory
  | .nil => d
  | .cons name node rest =>
    rest.walked path ((node.walked (Path.join path name)).elim d (d.insert name))

end

section

variable {o : Options}

theorem Walking.run_checkName {path : Path} {name : Bytes} (checked : Name.check name = .ok ())
    (skipped : Nat) :
    (Walking.checkName path name).run.run skipped = (.ok (), skipped) := by
  simp only [Walking.checkName, checked]
  rfl

theorem Walking.run_file {path : Path} {f : File} (small : f.content.size ≤ o.maxFileSize.toNat)
    (skipped : Nat) : (Walking.file o path f).run.run skipped
      = (.ok { mtime := f.mtime, size := UInt64.ofNat f.content.size, content := .host path },
        skipped) := by
  simp only [Walking.file, if_neg (Nat.not_lt.2 small)]
  rfl

theorem Walking.run_bind {α β : Type} {m : Walking α} {f : α → Walking β} {a : α}
    {skipped skipped' : Nat} (first : m.run.run skipped = (.ok a, skipped')) :
    (m >>= f).run.run skipped = (f a).run.run skipped' := by
  rw [ExceptT.run_bind, StateT.run_bind, first]
  rfl

mutual

/-- A walk that refuses nothing gives the tree with what stands for the nodes. -/
theorem Node.run_addTo {name : Bytes} (node : Node)
    (checked : node.isKept → Name.check name = .ok ()) (accepted : node.Accepted o) (path : Path)
    (d : FlatImage.Directory) (skipped : Nat) :
    ∃ skipped', (node.addTo o path name d).run.run skipped
      = (.ok ((node.walked path).elim d (d.insert name)), skipped') := by
  cases node with
  | file f =>
    refine ⟨skipped, ?_⟩
    rw [Node.addTo, Walking.run_bind (Walking.run_checkName (checked rfl) skipped),
      Walking.run_bind (Walking.run_file accepted skipped)]
    rfl
  | directory mtime entries =>
    obtain ⟨skipped', inner⟩ := entries.run_addTo accepted path (.mk mtime .nil) skipped
    refine ⟨skipped', ?_⟩
    rw [Node.addTo, Walking.run_bind (Walking.run_checkName (checked rfl) skipped),
      Walking.run_bind inner]
    rfl
  | link target => exact ⟨skipped + 1, rfl⟩
  | special kind mtime => exact ⟨skipped + 1, rfl⟩

theorem Nodes.run_addTo (nodes : Nodes) (accepted : nodes.Accepted o) (path : Path)
    (d : FlatImage.Directory) (skipped : Nat) : ∃ skipped',
      (nodes.addTo o path d).run.run skipped = (.ok (nodes.walked path d), skipped') := by
  cases nodes with
  | nil => exact ⟨skipped, rfl⟩
  | cons name node rest =>
    obtain ⟨checked, first, others⟩ := accepted
    obtain ⟨skipped₁, added⟩ := node.run_addTo checked first (Path.join path name) d skipped
    obtain ⟨skipped₂, all⟩ := rest.run_addTo others path _ skipped₁
    refine ⟨skipped₂, ?_⟩
    rw [Nodes.addTo, Walking.run_bind added]
    exact all

end

variable {path : Path}

mutual

theorem Node.ordered_walked (node : Node) (path : Path) {entry : Entry}
    (found : node.walked path = some entry) :
    entry.ordered := by
  cases node with
  | file f =>
    cases found
    rfl
  | directory mtime entries =>
    cases found
    exact entries.ordered_walked path (.mk mtime .nil) rfl
  | link => cases found
  | special => cases found

theorem Nodes.ordered_walked (nodes : Nodes) (path : Path) (d : FlatImage.Directory)
    (ordered : d.ordered) : (nodes.walked path d).ordered := by
  cases nodes with
  | nil => exact ordered
  | cons name node rest =>
    refine rest.ordered_walked path _ ?_
    cases found : node.walked (Path.join path name) with
    | none => exact ordered
    | some entry => exact Directory.ordered_insert ordered (node.ordered_walked _ found)

end

variable {name : Bytes} {names : List Bytes} {node : Node} {entry : Entry}

theorem Nodes.mtime_walked (nodes : Nodes) (path : Path) (d : FlatImage.Directory) :
    (nodes.walked path d).mtime = d.mtime := by
  match nodes with
  | .nil => rfl
  | .cons name node rest =>
    rw [walked, rest.mtime_walked]
    cases node.walked (Path.join path name) <;> rfl

/-- What a name stands for after a walk. -/
theorem Nodes.find?_walked (nodes : Nodes) (distinct : nodes.Distinct)
    (d : FlatImage.Directory) (name : Bytes) : (nodes.walked path d).find? name
      = ((nodes.find? name).bind (Node.walked (Path.join path name))).or (d.find? name) := by
  match nodes with
  | .nil => rfl
  | .cons other node rest =>
    obtain ⟨own, _, others⟩ := distinct
    rw [walked, rest.find?_walked others, find?]
    by_cases is : other = name
    · subst is
      rw [own, if_pos rfl, Option.bind_none, Option.none_or, Option.bind_some]
      cases node.walked (Path.join path other) with
      | none => rfl
      | some entry => exact d.find?_insert_self other entry
    · rw [if_neg is]
      cases node.walked (Path.join path other) with
      | none => rfl
      | some entry => rw [Option.elim_some, d.find?_insert_of_ne entry (Ne.symm is)]

theorem Nodes.storable_of_find? {nodes : Nodes} (storable : nodes.Storable o)
    (found : nodes.find? name = some node) : node.Storable o ∧ node.Recordable name := by
  match nodes with
  | .nil => cases found
  | .cons other first rest =>
    obtain ⟨recordable, _, own, others⟩ := storable
    by_cases is : other = name
    · subst is
      rw [find?, if_pos rfl] at found
      cases found
      exact ⟨own, recordable⟩
    · rw [find?, if_neg is] at found
      exact storable_of_find? others found

theorem Nodes.distinct_of_find? {nodes : Nodes} (distinct : nodes.Distinct)
    (found : nodes.find? name = some node) : node.Distinct := by
  match nodes with
  | .nil => cases found
  | .cons other first rest =>
    obtain ⟨_, own, others⟩ := distinct
    by_cases is : other = name
    · rw [find?, if_pos is] at found
      cases found
      exact own
    · rw [find?, if_neg is] at found
      exact distinct_of_find? others found

/-- What is below something that can be stored can be stored, and if it is kept, so are all names
that lead to it. -/
theorem Node.storable_of_at? {last : Node} (storable : node.Storable o)
    (there : node.at? names = some last) : last.Storable o
      ∧ (last.isKept → (∀ name ∈ names, Name.check name = .ok ())
        ∧ (names ≠ [] → ∀ mtime, last.mtime? = some mtime → 0 ≤ mtime.toInt)) := by
  induction names generalizing node with
  | nil =>
    cases there
    exact ⟨storable, fun _ => ⟨nofun, fun some => absurd rfl some⟩⟩
  | cons name rest ih =>
    cases node with
    | directory mtime entries =>
      rw [at?] at there
      cases found : entries.find? name with
      | none =>
        rw [found] at there
        cases there
      | some inner =>
        rw [found] at there
        obtain ⟨own, recordable⟩ := Nodes.storable_of_find? storable found
        obtain ⟨stored, all⟩ := ih own there
        refine ⟨stored, fun kept => ?_⟩
        obtain ⟨checked, timed⟩ := all kept
        cases rest with
        | nil =>
          cases there
          obtain ⟨named, stamped⟩ := recordable kept
          exact ⟨List.forall_mem_singleton.2 named, fun _ => stamped⟩
        | cons next rest =>
          -- Something is below the first node, so it is a directory.
          have kept : inner.isKept := by
            cases inner with
            | directory => rfl
            | _ => cases there
          exact ⟨List.forall_mem_cons.2 ⟨(recordable kept).1, checked⟩,
            fun _ => timed (List.cons_ne_nil next rest)⟩
    | _ => cases there

/-- Nothing stands for what is at or below a node that is not kept. -/
theorem Node.walked_below_eq_none (skipped : node.walked path = none) (names : List Bytes)
    (path : Path) : (node.at? names).bind (Node.walked path) = none := by
  cases node with
  | file => cases skipped
  | directory => cases skipped
  | _ => cases names <;> rfl

/-- Names lead to the same in what a walk makes of a node as in the node itself. -/
theorem Node.at?_walked (distinct : node.Distinct) (found : node.walked path = some entry) :
    entry.at? names = (node.at? names).bind (Node.walked (path.joinAll names)) := by
  induction names generalizing node path entry with
  | nil => exact found.symm
  | cons name rest ih =>
    cases node with
    | file f =>
      cases found
      rfl
    | directory mtime entries =>
      cases found
      rw [Entry.at?, Nodes.find?_walked entries distinct, at?]
      cases inside : entries.find? name with
      | none => rfl
      | some inner =>
        have own := Nodes.distinct_of_find? distinct inside
        rw [Option.bind_some]
        cases kept : inner.walked (Path.join path name) with
        | none => exact (inner.walked_below_eq_none kept rest _).symm
        | some entry => exact ih own kept
    | _ => cases found

end

/-! ## The tree at a path -/

/-- The tree of a directory that is walked under a path. -/
def Nodes.tree (path : Path) (mtime : Int64) (nodes : Nodes) : FlatImage.Directory :=
  nodes.walked path (.mk mtime .nil)

theorem Nodes.ordered_tree (path : Path) (mtime : Int64) (nodes : Nodes) :
    (nodes.tree path mtime).ordered := nodes.ordered_walked path _ rfl

/-- Names lead in the tree to what they lead to on the host. -/
theorem Nodes.at?_tree {h : Host} {path : Path} {loc : Location} {mtime : Int64} {nodes : Nodes}
    (is : h.at? loc = some (.directory mtime nodes)) (distinct : nodes.Distinct)
    (names : List Bytes) : (Entry.directory (nodes.tree path mtime)).at? names
      = (h.at? (loc ++ names)).bind (Node.walked (path.joinAll names)) := by
  have distinct : (Node.directory mtime nodes).Distinct := distinct
  rw [at?_append, is, Option.bind_some]
  exact Node.at?_walked distinct rfl

theorem toNat_size {o : Options} {size : Nat} (small : size ≤ o.maxFileSize.toNat) :
    (UInt64.ofNat size).toNat = size :=
  UInt64.toNat_ofNat_of_lt' (Nat.lt_of_le_of_lt small o.maxFileSize.toNat_lt)

/-- A path opens a directory of which everything can be stored. -/
structure Walkable (o : Options) (h : Host) (path : Path) (loc : Location) (mtime : Int64)
    (nodes : Nodes) : Prop where
  opened : h.openDirectory path true = .ok loc
  is : h.at? loc = some (.directory mtime nodes)
  storable : nodes.Storable o

namespace Walkable

variable {o : Options} {h : Host} {path : Path} {loc : Location} {mtime : Int64} {nodes : Nodes}
variable {names : List Bytes}

theorem distinct (w : Walkable o h path loc mtime nodes) : nodes.Distinct :=
  (Nodes.Storable.walkable nodes w.storable).1

theorem accepted (w : Walkable o h path loc mtime nodes) : nodes.Accepted o :=
  (Nodes.Storable.walkable nodes w.storable).2

theorem readTree (w : Walkable o h path loc mtime nodes) :
    h.readTree path o = .ok (nodes.tree path mtime) := by
  obtain ⟨skipped, run⟩ := nodes.run_addTo w.accepted path (.mk mtime .nil) 0
  simp only [Host.readTree, readDirectory, w.opened, w.is, run]
  rfl

theorem at?_tree (w : Walkable o h path loc mtime nodes) (names : List Bytes) :
    (Entry.directory (nodes.tree path mtime)).at? names
      = (h.at? (loc ++ names)).bind (Node.walked (path.joinAll names)) :=
  Nodes.at?_tree w.is w.distinct names

/-- What is below can be stored, and a kept node has a name and a modification time that a record
can hold. -/
theorem storable_of_at? (w : Walkable o h path loc mtime nodes) {node : Node}
    (there : h.at? (loc ++ names) = some node) : node.Storable o
      ∧ (node.isKept → (∀ name ∈ names, Name.check name = .ok ())
        ∧ (names ≠ [] → ∀ mtime, node.mtime? = some mtime → 0 ≤ mtime.toInt)) := by
  have storable : (Node.directory mtime nodes).Storable o := w.storable
  rw [at?_append, w.is, Option.bind_some] at there
  exact Node.storable_of_at? storable there

/-- A file in the tree stands for one on the host. -/
theorem file_of_tree (w : Walkable o h path loc mtime nodes) {file : FlatImage.File}
    (there : (Entry.directory (nodes.tree path mtime)).at? names = some (.file file)) :
    ∃ f, h.at? (loc ++ names) = some (.file f) ∧ f.content.size ≤ o.maxFileSize.toNat
      ∧ file = ⟨f.mtime, UInt64.ofNat f.content.size, .host (path.joinAll names)⟩ := by
  rw [w.at?_tree] at there
  obtain ⟨node, found, walked⟩ := Option.bind_eq_some_iff.1 there
  cases node with
  | file f =>
    cases walked
    exact ⟨f, found, (w.storable_of_at? found).1, rfl⟩
  | _ => cases walked

theorem ne_nil_of_file (w : Walkable o h path loc mtime nodes) {f : File}
    (there : h.at? (loc ++ names) = some (.file f)) : names ≠ [] := by
  rintro rfl
  rw [List.append_nil, w.is] at there
  cases there

end Walkable

end FlatImage.Host
