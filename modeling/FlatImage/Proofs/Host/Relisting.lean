import FlatImage.Proofs.Host.Growth
import FlatImage.Proofs.Host.Reaching
import FlatImage.Proofs.Host.Walking
import FlatImage.Proofs.Layout.Refusal

/-!
# Walks and the order of listings

A walk ends well when every name that it keeps is accepted and no file is too large, and only then,
so whether it does can be said of what stands at the locations below its root. Neither this nor the
tree depends on the order in which directories list their entries, and a plan of the tree under the
same options finds nothing to refuse that the walk should have refused: `readTree_of_opened`.
-/

namespace FlatImage.Host

variable {o : Options} {name : Bytes} {node node' : Node} {nodes nodes' : Nodes}

/-! ## What a walk accepts -/

section

variable {path : Path} {d d' : FlatImage.Directory} {skipped skipped' : Nat}

/-- The steps of a walk that ends well end well themselves. -/
theorem Walking.of_run_bind {α β : Type} {m : Walking α} {f : α → Walking β} {b : β}
    (run : (m >>= f).run.run skipped = (.ok b, skipped')) :
    ∃ a middle, m.run.run skipped = (.ok a, middle)
      ∧ (f a).run.run middle = (.ok b, skipped') := by
  rw [ExceptT.run_bind, StateT.run_bind] at run
  match m.run.run skipped, run with
  | (.ok a, middle), run => exact ⟨a, middle, rfl, run⟩
  | (.error e, middle), run => cases run

theorem Walking.of_run_checkName {u : Unit}
    (run : (Walking.checkName path name).run.run skipped = (.ok u, skipped')) :
    Name.check name = .ok () := by
  unfold Walking.checkName at run
  split at run
  · next checked => exact checked
  · cases run

theorem Walking.of_run_file {f : File} {file : FlatImage.File}
    (run : (Walking.file o path f).run.run skipped = (.ok file, skipped')) :
    f.content.size ≤ o.maxFileSize.toNat := by
  unfold Walking.file at run
  split at run
  · cases run
  · next small => exact Nat.le_of_not_lt small

mutual

/-- A walk that ends well has refused nothing. -/
theorem Node.accepted_of_run {name : Bytes} (node : Node) (path : Path)
    (d : FlatImage.Directory) {d' : FlatImage.Directory} {skipped skipped' : Nat}
    (run : (node.addTo o path name d).run.run skipped = (.ok d', skipped')) :
    (node.isKept → Name.check name = .ok ()) ∧ node.Accepted o := by
  cases node with
  | file f =>
    obtain ⟨_, _, checked, run⟩ := Walking.of_run_bind run
    obtain ⟨_, _, small, _⟩ := Walking.of_run_bind run
    exact ⟨fun _ => Walking.of_run_checkName checked, Walking.of_run_file small⟩
  | directory mtime entries =>
    obtain ⟨_, _, checked, run⟩ := Walking.of_run_bind run
    obtain ⟨_, _, inner, _⟩ := Walking.of_run_bind run
    exact ⟨fun _ => Walking.of_run_checkName checked, entries.accepted_of_run path _ inner⟩
  | link => exact ⟨nofun, trivial⟩
  | special => exact ⟨nofun, trivial⟩

theorem Nodes.accepted_of_run (nodes : Nodes) (path : Path) (d : FlatImage.Directory)
    {d' : FlatImage.Directory} {skipped skipped' : Nat}
    (run : (nodes.addTo o path d).run.run skipped = (.ok d', skipped')) : nodes.Accepted o := by
  cases nodes with
  | nil => trivial
  | cons name node rest =>
    obtain ⟨_, _, first, others⟩ := Walking.of_run_bind run
    obtain ⟨checked, accepted⟩ := node.accepted_of_run _ _ first
    exact ⟨checked, accepted, rest.accepted_of_run _ _ others⟩

end

end

/-- A walk can keep a node under a name, or skips it. -/
def Node.Admitted (o : Options) (name : Bytes) (node : Node) : Prop :=
  node.isKept → Name.check name = .ok ()
    ∧ ∀ f, node = .file f → f.content.size ≤ o.maxFileSize.toNat

theorem Node.admitted_of_accepted (checked : node.isKept → Name.check name = .ok ())
    (accepted : node.Accepted o) : node.Admitted o name := by
  refine fun kept => ⟨checked kept, ?_⟩
  rintro f rfl
  exact accepted

theorem Node.admitted_shell : node.shell.Admitted o name ↔ node.Admitted o name := by
  cases node with
  | directory mtime entries =>
    exact ⟨fun h _ => ⟨(h rfl).1, nofun⟩, fun h _ => ⟨(h rfl).1, nofun⟩⟩
  | _ => rfl

theorem Nodes.admitted_of_find? {nodes : Nodes} (accepted : nodes.Accepted o)
    (found : nodes.find? name = some node) : node.Admitted o name ∧ node.Accepted o := by
  match nodes with
  | .nil => cases found
  | .cons other first rest =>
    obtain ⟨checked, own, others⟩ := accepted
    by_cases is : other = name
    · subst is
      rw [find?, if_pos rfl] at found
      cases found
      exact ⟨Node.admitted_of_accepted checked own, own⟩
    · rw [find?, if_neg is] at found
      exact admitted_of_find? others found

theorem Node.accepted_of_at? {names : List Bytes} (accepted : node.Accepted o)
    (there : node.at? names = some node') : node'.Accepted o := by
  induction names generalizing node with
  | nil =>
    cases there
    exact accepted
  | cons first rest ih =>
    cases node with
    | directory mtime entries =>
      rw [at?] at there
      split at there
      · next found => exact ih (Nodes.admitted_of_find? accepted found).2 there
      · cases there
    | _ => cases there

/-- Nothing that a walk refuses stands below what it accepts. -/
theorem Node.admitted_of_at? {names : List Bytes} (accepted : node.Accepted o)
    (there : node.at? (names ++ [name]) = some node') : node'.Admitted o name := by
  rw [at?_append] at there
  obtain ⟨above, found, there⟩ := Option.bind_eq_some_iff.1 there
  have inside := Node.accepted_of_at? accepted found
  cases above with
  | directory mtime entries =>
    rw [at?] at there
    split at there
    · next found =>
      cases there
      exact (Nodes.admitted_of_find? inside found).1
    · cases there
  | _ => cases there

mutual

/-- Where everything below can be kept or is skipped, a walk refuses nothing. -/
theorem Node.accepted_of_admitted (node : Node) (distinct : node.Distinct)
    (small : ∀ f, node = .file f → f.content.size ≤ o.maxFileSize.toNat)
    (all : ∀ names name last, node.at? (names ++ [name]) = some last → last.Admitted o name) :
    node.Accepted o := by
  cases node with
  | file f => exact small f rfl
  | directory mtime entries => exact entries.accepted_of_admitted mtime distinct all
  | link => trivial
  | special => trivial

theorem Nodes.accepted_of_admitted (nodes : Nodes) (mtime : Int64) (distinct : nodes.Distinct)
    (all : ∀ names name last, (Node.directory mtime nodes).at? (names ++ [name]) = some last →
      last.Admitted o name) : nodes.Accepted o := by
  cases nodes with
  | nil => trivial
  | cons first node rest =>
    obtain ⟨own, distinct, others⟩ := distinct
    have admitted : node.Admitted o first := by
      refine all [] first node ?_
      simp [Node.at?, Nodes.find?]
    have inside names name last (there : node.at? (names ++ [name]) = some last) :
        last.Admitted o name := by
      refine all (first :: names) name last ?_
      simpa [Node.at?, Nodes.find?] using there
    have behind names name last
        (there : (Node.directory mtime rest).at? (names ++ [name]) = some last) :
        last.Admitted o name := by
      refine all names name last ?_
      -- The names start with one of the other entries, and the first entry has another name.
      obtain ⟨next, more, is⟩ := List.exists_cons_of_ne_nil (List.append_ne_nil_of_right_ne_nil
        names (List.cons_ne_nil name []))
      rw [is, Node.at?] at there ⊢
      have ne : first ≠ next := by
        rintro rfl
        rw [own] at there
        cases there
      rwa [Nodes.find?, if_neg ne]
    have kept : node.isKept → Name.check first = .ok () := fun kept => (admitted kept).1
    refine ⟨kept, node.accepted_of_admitted distinct ?_ inside,
      rest.accepted_of_admitted mtime others behind⟩
    rintro f rfl
    exact (admitted rfl).2 f rfl

end

/-! ## Other orders -/

mutual

/-- The other node is the same but that directories can list their entries in another order. -/
def Node.Relisted : Node → Node → Prop
  | .directory mtime entries, other =>
    ∃ entries', other = .directory mtime entries' ∧ entries.Relisted entries'
  | .file f, other => other = .file f
  | .link target, other => other = .link target
  | .special kind mtime, other => other = .special kind mtime

/-- The others are these entries in some order. -/
def Nodes.Relisted : Nodes → Nodes → Prop
  | .nil, others => others = .nil
  | .cons name node rest, others =>
    ∃ node', others.find? name = some node' ∧ node.Relisted node'
      ∧ rest.Relisted (others.erase name)

end

theorem Node.shell_of_relisted (relisted : node.Relisted node') : node'.shell = node.shell := by
  cases node with
  | directory mtime entries =>
    obtain ⟨_, rfl, _⟩ := relisted
    rfl
  | _ => exact congrArg Node.shell relisted

/-- A name has the same node in every order, but for the order of what is below. -/
theorem Nodes.find?_of_relisted {nodes nodes' : Nodes} (relisted : nodes.Relisted nodes')
    (name : Bytes) : Option.Rel Node.Relisted (nodes.find? name) (nodes'.find? name) := by
  match nodes with
  | .nil =>
    obtain rfl : nodes' = .nil := relisted
    exact .none
  | .cons other node rest =>
    obtain ⟨node', found, same, others⟩ := relisted
    by_cases is : other = name
    · subst is
      rw [find?, if_pos rfl, found]
      exact .some same
    · rw [find?, if_neg is, ← nodes'.find?_erase_of_ne (Ne.symm is)]
      exact find?_of_relisted others name

theorem Node.at?_of_relisted (relisted : node.Relisted node') (loc : Location) :
    Option.Rel Node.Relisted (node.at? loc) (node'.at? loc) := by
  induction loc generalizing node node' with
  | nil => exact .some relisted
  | cons name rest ih =>
    cases node with
    | directory mtime entries =>
      obtain ⟨entries', rfl, same⟩ := relisted
      rw [at?, at?]
      match entries.find? name, entries'.find? name, Nodes.find?_of_relisted same name with
      | none, none, _ => exact .none
      | some _, some _, .some inner => exact ih inner
    | _ =>
      obtain rfl := relisted
      exact .none

/-! ### Names of their own -/

theorem Nodes.find?_erase_of_none {nodes : Nodes} (none : nodes.find? name = none) (other : Bytes) :
    (nodes.erase other).find? name = Option.none := by
  match nodes with
  | .nil => rfl
  | .cons first node rest =>
    have ne : first ≠ name := by
      rintro rfl
      rw [find?, if_pos rfl] at none
      cases none
    rw [find?, if_neg ne] at none
    by_cases is : first = other
    · rwa [erase, if_pos is]
    · rw [erase, if_neg is, find?, if_neg ne, find?_erase_of_none none other]

theorem Nodes.distinct_erase {nodes : Nodes} (distinct : nodes.Distinct) (name : Bytes) :
    (nodes.erase name).Distinct := by
  match nodes with
  | .nil => trivial
  | .cons first node rest =>
    obtain ⟨own, inside, others⟩ := distinct
    by_cases is : first = name
    · rwa [erase, if_pos is]
    · rw [erase, if_neg is]
      exact ⟨find?_erase_of_none own name, inside, distinct_erase others name⟩

/-- Names are unique when one of them is and the others are. -/
theorem Nodes.distinct_of_erase {nodes : Nodes} (found : nodes.find? name = some node)
    (distinct : node.Distinct) (once : (nodes.erase name).find? name = none)
    (others : (nodes.erase name).Distinct) : nodes.Distinct := by
  match nodes with
  | .nil => cases found
  | .cons first inner rest =>
    by_cases is : first = name
    · subst is
      rw [find?, if_pos rfl] at found
      cases found
      rw [erase, if_pos rfl] at once others
      exact ⟨once, distinct, others⟩
    · rw [find?, if_neg is] at found
      rw [erase, if_neg is] at once others
      obtain ⟨own, inside, others⟩ := others
      rw [find?, if_neg is] at once
      exact ⟨(rest.find?_erase_of_ne is) ▸ own, inside,
        distinct_of_erase found distinct once others⟩

mutual

theorem Node.distinct_of_relisted (node : Node) {node' : Node} (relisted : node.Relisted node')
    (distinct : node.Distinct) : node'.Distinct := by
  cases node with
  | directory mtime entries =>
    obtain ⟨entries', rfl, same⟩ := relisted
    exact entries.distinct_of_relisted same distinct
  | _ =>
    obtain rfl := relisted
    trivial

theorem Nodes.distinct_of_relisted (nodes : Nodes) {nodes' : Nodes}
    (relisted : nodes.Relisted nodes') (distinct : nodes.Distinct) : nodes'.Distinct := by
  cases nodes with
  | nil =>
    obtain rfl : nodes' = .nil := relisted
    trivial
  | cons name node rest =>
    obtain ⟨node', found, same, others⟩ := relisted
    obtain ⟨own, inside, behind⟩ := distinct
    have once : (nodes'.erase name).find? name = none := by
      have gone := Nodes.find?_of_relisted others name
      cases still : (nodes'.erase name).find? name with
      | none => rfl
      | some node =>
        rw [own, still] at gone
        cases gone
    exact Nodes.distinct_of_erase found (node.distinct_of_relisted same inside) once
      (rest.distinct_of_relisted others behind)

end

/-! ### The tree -/

mutual

/-- The order of listings does not show in the entry that stands for a node. -/
theorem Node.walked_of_relisted (node : Node) {node' : Node} (relisted : node.Relisted node')
    (distinct : node.Distinct) (path : Path) : node'.walked path = node.walked path := by
  cases node with
  | directory mtime entries =>
    have distinct' := Node.distinct_of_relisted _ relisted distinct
    obtain ⟨entries', rfl, same⟩ := relisted
    refine congrArg (some ∘ Entry.directory) ?_
    refine Directory.eq_of_find? (entries'.ordered_walked path _ rfl)
      (entries.ordered_walked path _ rfl) ?_ fun name => ?_
    · rw [Nodes.mtime_walked, Nodes.mtime_walked]
    · rw [Nodes.find?_walked entries' distinct', Nodes.find?_walked entries distinct,
        entries.walked_of_relisted same distinct distinct' path name]
  | _ =>
    obtain rfl := relisted
    rfl

theorem Nodes.walked_of_relisted (nodes : Nodes) {nodes' : Nodes}
    (relisted : nodes.Relisted nodes') (distinct : nodes.Distinct) (distinct' : nodes'.Distinct)
    (path : Path) (name : Bytes) : (nodes'.find? name).bind (Node.walked (Path.join path name))
      = (nodes.find? name).bind (Node.walked (Path.join path name)) := by
  cases nodes with
  | nil =>
    obtain rfl : nodes' = .nil := relisted
    rfl
  | cons other node rest =>
    obtain ⟨node', found, same, others⟩ := relisted
    obtain ⟨_, inside, behind⟩ := distinct
    by_cases is : other = name
    · subst is
      rw [Nodes.find?, if_pos rfl, found]
      exact node.walked_of_relisted same inside _
    · rw [Nodes.find?, if_neg is, ← nodes'.find?_erase_of_ne (Ne.symm is)]
      exact rest.walked_of_relisted others behind (Nodes.distinct_erase distinct' other) path name

end

/-- The other host is the same but that directories can list their entries in another order. -/
structure Relisted (h h' : Host) : Prop where
  current : h'.current = h.current
  root : h.root.Relisted h'.root

section

variable {h h' : Host} {path : Path} {loc : Location} {mtime : Int64} {names : List Bytes}
variable {root : FlatImage.Directory}

theorem view_of_relisted (relisted : h.Relisted h') (loc : Location) :
    h'.view loc = h.view loc := by
  unfold view at?
  match h.root.at? loc, h'.root.at? loc, Node.at?_of_relisted relisted.root loc with
  | none, none, _ => rfl
  | some _, some _, .some same => exact congrArg some (Node.shell_of_relisted same)

/-- A path opens the same directory in every order. -/
theorem openDirectory_of_relisted (relisted : h.Relisted h')
    (opened : h.openDirectory path true = .ok loc) : h'.openDirectory path true = .ok loc := by
  have grown : h'.Grown h :=
    ⟨relisted.current.symm, fun loc => .inl (view_of_relisted relisted loc).symm⟩
  exact grown.openDirectory_of opened

theorem directory_of_relisted (relisted : h.Relisted h')
    (is : h.at? loc = some (.directory mtime nodes)) :
    ∃ nodes', h'.at? loc = some (.directory mtime nodes') ∧ nodes.Relisted nodes' := by
  have same := Node.at?_of_relisted relisted.root loc
  have there : h.root.at? loc = some (.directory mtime nodes) := is
  rw [there] at same
  match found : h'.root.at? loc, same with
  | some _, .some ⟨nodes', is', same⟩ => exact ⟨nodes', found.trans (congrArg some is'), same⟩

/-! ## Reading a tree -/

/-- What reading a tree gives, and when. -/
theorem readTree_eq_ok_iff (opened : h.openDirectory path true = .ok loc)
    (is : h.at? loc = some (.directory mtime nodes)) :
    h.readTree path o = .ok root ↔ nodes.Accepted o ∧ root = nodes.tree path mtime := by
  simp only [readTree, readDirectory, opened, is]
  constructor
  · intro read
    have run : (nodes.addTo o path (.mk mtime .nil)).run.run 0 = (.ok root, _) :=
      Prod.ext read rfl
    have accepted := nodes.accepted_of_run path _ run
    obtain ⟨skipped, tree⟩ := nodes.run_addTo accepted path (.mk mtime .nil) 0
    rw [tree] at read
    exact ⟨accepted, (Except.ok.inj read).symm⟩
  · rintro ⟨accepted, rfl⟩
    obtain ⟨skipped, tree⟩ := nodes.run_addTo accepted path (.mk mtime .nil) 0
    rw [tree]
    rfl

/-- All is accepted below a location when what stands there can be kept or is skipped. -/
theorem accepted_iff (is : h.at? loc = some (.directory mtime nodes)) (distinct : nodes.Distinct) :
    nodes.Accepted o ↔ ∀ names name node, h.at? (loc ++ (names ++ [name])) = some node →
      node.Admitted o name := by
  simp only [at?_append, is, Option.bind_some]
  constructor
  · intro accepted names name node there
    have accepted : (Node.directory mtime nodes).Accepted o := accepted
    exact Node.admitted_of_at? accepted there
  · exact nodes.accepted_of_admitted mtime distinct

/-- What stands where decides what can be kept. -/
theorem admitted_of_view (same : ∀ loc, h'.view loc = h.view loc)
    (all : ∀ names name node, h.at? (loc ++ (names ++ [name])) = some node →
      node.Admitted o name) :
    ∀ names name node, h'.at? (loc ++ (names ++ [name])) = some node → node.Admitted o name := by
  intro names name node' there
  have seen : h.view (loc ++ (names ++ [name])) = some node'.shell := by
    rw [← same, view, there]
    rfl
  obtain ⟨node, found, shell⟩ := Option.map_eq_some_iff.1 seen
  rw [← Node.admitted_shell, ← shell, Node.admitted_shell]
  exact all names name node found

/-- An entry of a tree has what a walk takes over from a node at a path. -/
def StandsFor (path : Path) : Entry → Node → Prop
  | .file file, .file f => file.mtime = f.mtime ∧ file.size.toNat = f.content.size
    ∧ file.content = .host path
  | .directory d, .directory mtime _ => d.mtime = mtime
  | _, _ => False

/-- The tree has an entry for everything that is kept below a location, and no other one. -/
structure Mirrors (h : Host) (path : Path) (loc : Location) (root : FlatImage.Directory) :
    Prop where
  entry : ∀ names entry, (Entry.directory root).at? names = some entry →
    ∃ node, h.at? (loc ++ names) = some node ∧ StandsFor (path.joinAll names) entry node
  node : ∀ names node, h.at? (loc ++ names) = some node → node.isKept →
    ∃ entry, (Entry.directory root).at? names = some entry
      ∧ StandsFor (path.joinAll names) entry node

theorem Node.standsFor_walked {entry : Entry} (accepted : node.Accepted o)
    (walked : node.walked path = some entry) : StandsFor path entry node := by
  cases node with
  | file f =>
    cases walked
    exact ⟨rfl, toNat_size accepted, rfl⟩
  | directory mtime entries =>
    cases walked
    exact entries.mtime_walked path (.mk mtime .nil)
  | _ => cases walked

/-- The tree of what a walk accepts. -/
theorem mirrors_tree (is : h.at? loc = some (.directory mtime nodes)) (distinct : nodes.Distinct)
    (accepted : nodes.Accepted o) : Mirrors h path loc (nodes.tree path mtime) := by
  have whole : (Node.directory mtime nodes).Accepted o := accepted
  have below {names node} (there : h.at? (loc ++ names) = some node) : node.Accepted o := by
    rw [at?_append, is] at there
    exact Node.accepted_of_at? whole there
  constructor
  · intro names entry there
    rw [Nodes.at?_tree is distinct] at there
    obtain ⟨node, found, walked⟩ := Option.bind_eq_some_iff.1 there
    exact ⟨node, found, Node.standsFor_walked (below found) walked⟩
  · intro names node there kept
    obtain ⟨entry, walked⟩ : ∃ entry, node.walked (path.joinAll names) = some entry := by
      cases node with
      | file => exact ⟨_, rfl⟩
      | directory => exact ⟨_, rfl⟩
      | _ => cases kept
    refine ⟨entry, ?_, Node.standsFor_walked (below there) walked⟩
    rw [Nodes.at?_tree is distinct, there]
    exact walked

theorem isKept_of_standsFor {entry : Entry} (stands : StandsFor path entry node) :
    node.isKept := by
  cases node with
  | file => rfl
  | directory => rfl
  | _ => cases entry <;> cases stands

/-- A plan of a tree that mirrors accepted nodes refuses no name and no file. -/
theorem Mirrors.refusal_of_plan (mirrors : Mirrors h path loc root) (ordered : root.ordered)
    (admitted : ∀ names name node, h.at? (loc ++ (names ++ [name])) = some node →
      node.Admitted o name) {fault : Fault RunError} (refused : Layout.plan root o = .error fault) :
    (∃ cause, fault = .error (.invalidOptions cause))
      ∨ ∃ e, fault = .error e ∧ o.RefusesSize e := by
  refine Layout.refusal_of_plan (fun name mem => ?_) (fun place mem => ?_) refused
  · obtain ⟨names, entry, there, last⟩ := Directory.at?_of_mem_names root ordered mem
    obtain ⟨front, rfl⟩ := List.getLast?_eq_some_iff.1 last
    obtain ⟨node, found, stands⟩ := mirrors.entry _ _ there
    exact (admitted front name node found (isKept_of_standsFor stands)).1
  · obtain ⟨names, _, there⟩ := Directory.at?_of_mem_allFiles _ root ordered mem
    obtain ⟨node, found, stands⟩ := mirrors.entry _ _ there
    cases node with
    | file f =>
      obtain rfl | ⟨front, name, rfl⟩ := List.eq_nil_or_concat names
      · cases there
      · rw [List.concat_eq_append] at found
        have small := (admitted front name _ found rfl).2 f rfl
        rw [UInt64.le_iff_toNat_le, stands.2.1]
        exact small
    | _ => cases stands

/-- A path that opens a directory whose names are its own, as those below are. A tree is read there
exactly when all that stands below can be kept or is skipped. The tree then mirrors what is there,
and a plan of it under the same options refuses no name and no file. On a host that lists its
entries in another order the same tree is read, or none. -/
theorem readTree_of_opened (opened : h.openDirectory path true = .ok loc)
    (is : h.at? loc = some (.directory mtime nodes)) (distinct : nodes.Distinct) :
    ((∃ root, h.readTree path o = .ok root) ↔
        ∀ names name node, h.at? (loc ++ (names ++ [name])) = some node → node.Admitted o name)
      ∧ (∀ root, h.readTree path o = .ok root → root.ordered ∧ Mirrors h path loc root
        ∧ ∀ fault, Layout.plan root o = .error fault →
          (∃ cause, fault = .error (.invalidOptions cause))
            ∨ ∃ e, fault = .error e ∧ o.RefusesSize e)
      ∧ ∀ h', h.Relisted h' → ∀ root,
          h'.readTree path o = .ok root ↔ h.readTree path o = .ok root := by
  have iff := accepted_iff (o := o) is distinct
  refine ⟨?_, fun root read => ?_, fun h' relisted root => ?_⟩
  · rw [← iff]
    exact ⟨fun ⟨_, read⟩ => ((readTree_eq_ok_iff opened is).1 read).1,
      fun accepted => ⟨_, (readTree_eq_ok_iff opened is).2 ⟨accepted, rfl⟩⟩⟩
  · obtain ⟨accepted, rfl⟩ := (readTree_eq_ok_iff opened is).1 read
    have ordered := nodes.ordered_tree path mtime
    have mirrors : Mirrors h path loc _ := mirrors_tree is distinct accepted
    exact ⟨ordered, mirrors, fun _ => mirrors.refusal_of_plan ordered (iff.1 accepted)⟩
  · obtain ⟨nodes', is', same⟩ := directory_of_relisted relisted is
    have opened' := openDirectory_of_relisted relisted opened
    have distinct' := nodes.distinct_of_relisted same distinct
    have views := view_of_relisted relisted
    have iff' := accepted_iff (o := o) is' distinct'
    have accepts : nodes'.Accepted o ↔ nodes.Accepted o := by
      rw [iff, iff']
      exact ⟨admitted_of_view fun loc => (views loc).symm, admitted_of_view views⟩
    have tree : nodes'.tree path mtime = nodes.tree path mtime :=
      Entry.directory.inj (Option.some.inj
        (Node.walked_of_relisted (.directory mtime nodes) ⟨nodes', rfl, same⟩ distinct path))
    rw [readTree_eq_ok_iff opened' is', readTree_eq_ok_iff opened is, accepts, tree]

/-- A host whose directory `s` has these entries. -/
def shelf (entries : Nodes) : Host :=
  ⟨.directory 0 (.cons [0x73] (.directory 7 entries) .nil), [], 9⟩

/-- A file, a link whose name no record could hold, and a directory. -/
def books : Nodes :=
  .cons [0x62] (.file ⟨.ofBuffer ⟨#[1, 2, 3]⟩, 5, false⟩)
    (.cons [0xff] (.link [0x62]) (.cons [0x61] (.directory 6 .nil) .nil))

def shuffledBooks : Nodes :=
  .cons [0x61] (.directory 6 .nil)
    (.cons [0x62] (.file ⟨.ofBuffer ⟨#[1, 2, 3]⟩, 5, false⟩) (.cons [0xff] (.link [0x62]) .nil))

theorem readTree_of_opened_shelf : ∃ root, (shelf books).readTree [0x73] {} = .ok root
    ∧ Mirrors (shelf books) [0x73] [[0x73]] root
    ∧ (shelf shuffledBooks).readTree [0x73] {} = .ok root := by
  have opened : (shelf books).openDirectory [0x73] true = .ok [[0x73]] :=
    openDirectory_of_name rfl rfl
  have is : (shelf books).at? [[0x73]] = some (.directory 7 books) := rfl
  have distinct : books.Distinct := ⟨rfl, trivial, rfl, trivial, rfl, trivial, trivial⟩
  have accepted : books.Accepted {} :=
    ⟨fun _ => rfl, (by decide : 3 ≤ _), nofun, trivial, fun _ => rfl, trivial, trivial⟩
  have relisted : (shelf books).Relisted (shelf shuffledBooks) :=
    ⟨rfl, _, rfl, _, rfl, ⟨_, rfl, _, rfl, rfl, _, rfl, rfl, _, rfl, ⟨_, rfl, rfl⟩, rfl⟩, rfl⟩
  obtain ⟨iff, reads, same⟩ := readTree_of_opened (o := {}) opened is distinct
  obtain ⟨root, read⟩ := iff.2 ((accepted_iff is distinct).1 accepted)
  exact ⟨root, read, (reads root read).2.1, (same _ relisted root).2 read⟩

end

end FlatImage.Host
