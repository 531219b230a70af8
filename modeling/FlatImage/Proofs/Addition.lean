import FlatImage.Proofs.Layout.Planning
import FlatImage.Proofs.Locations
import FlatImage.Proofs.Paths
import FlatImage.Tree.Navigation
import FlatImage.Tree.ToImage

/-!
# Adding files

Files that are added to a tree meet in the directories above them, which the first of them makes,
and a file replaces whatever had its place. When no place is above another one, nothing of the order
is left: `Directory.addFiles_eq_of_perm`. A place is a list of names. That files at two places can
change their order is shown along both lists, as long as they have a name in common, and lifted to
any order of any number of files.
-/

namespace FlatImage

namespace Path

/-- The name that a component is, if it is one. -/
def Component.name? : Component → Option Bytes
  | .normal name => some name
  | _ => none

/-- The names on a path. A separator at its start is none. -/
def names (p : Path) : List Bytes := (components p).filterMap Component.name?

/-- The path is made of names, but for a separator at its start. -/
def IsPlain (p : Path) : Prop :=
  components p = (names p).map .normal ∨ components p = .root :: (names p).map .normal

instance (p : Path) : Decidable (IsPlain p) := inferInstanceAs (Decidable (_ ∨ _))

/-- Neither of two places is the other one or above it. -/
def Apart (a b : List Bytes) : Prop := ¬ a <+: b ∧ ¬ b <+: a

instance (a b : List Bytes) : Decidable (Apart a b) := inferInstanceAs (Decidable (_ ∧ _))

theorem Apart.symm {a b : List Bytes} (apart : Apart a b) : Apart b a := ⟨apart.2, apart.1⟩

theorem Apart.of_cons {name : Bytes} {a b : List Bytes} (apart : Apart (name :: a) (name :: b)) :
    Apart a b :=
  ⟨fun above => apart.1 (List.cons_prefix_cons.2 ⟨rfl, above⟩),
    fun above => apart.2 (List.cons_prefix_cons.2 ⟨rfl, above⟩)⟩

theorem Apart.exists_cons {a b : List Bytes} (apart : Apart a b) : ∃ name rest, b = name :: rest :=
  List.exists_cons_of_ne_nil fun is => apart.2 (is ▸ List.nil_prefix)

/-- A path of names with a last component has the names of its parent and that one. -/
theorem fileName?_of_isPlain {p : Path} (plain : IsPlain p) :
    (fileName? p = none ∧ names p = []) ∨ ∃ q name front, fileName? p = some name
      ∧ parent? p = some q ∧ names p = front ++ [name]
      ∧ (components q = front.map .normal ∨ components q = .root :: front.map .normal) := by
  rcases List.eq_nil_or_concat (names p) with is | ⟨front, name, is⟩
  · refine .inl ⟨?_, is⟩
    rw [IsPlain, is] at plain
    obtain plain | plain := plain
    · simp [fileName?, plain]
    · simp [fileName?, plain]
  · rw [IsPlain, is, List.concat_eq_append, List.map_append, ← List.cons_append] at plain
    have last : (components p).getLast? = some (.normal name) := by
      obtain plain | plain := plain
      · rw [plain]
        exact List.getLast?_concat
      · rw [plain]
        exact List.getLast?_concat
    have found : fileName? p = some name := by rw [fileName?, last]
    obtain ⟨q, parent, split⟩ := components_of_fileName? found
    rw [split] at plain
    refine .inr ⟨q, name, front, found, parent, is.trans List.concat_eq_append, ?_⟩
    exact plain.imp (fun same => (List.append_inj' same rfl).1)
      fun same => (List.append_inj' same rfl).1

end Path

/-- The second of two entries of one name is the one that is left. -/
theorem Entries.insert_insert (name : Bytes) (old entry : Entry) (entries : Entries) :
    (entries.insert name old).insert name entry = entries.insert name entry := by
  match entries with
  | nil => exact insert_cons_self ..
  | cons other first rest =>
    rcases Bytes.before_trichotomy name other with h | rfl | h
    · rw [insert_cons_of_before h, insert_cons_of_before h, insert_cons_self]
    · rw [insert_cons_self, insert_cons_self, insert_cons_self]
    · rw [insert_cons_of_after h, insert_cons_of_after h, insert_cons_of_after h,
        insert_insert name old entry rest]

theorem Directory.insert_insert (d : Directory) (name : Bytes) (old entry : Entry) :
    (d.insert name old).insert name entry = d.insert name entry := by
  simp only [insert, entries, mtime, Entries.insert_insert]

namespace Entry

/-! ## Files at places -/

/-- The directory that something can be put in: the one that is there, and a new one where nothing
is. -/
def inside? : Option Entry → Option Directory
  | none => some .empty
  | some (.directory d) => some d
  | some (.file _) => none

/-- What comes of an entry when a file is put at a place below it, or at its own place. -/
def put? (file : File) : List Bytes → Option Entry → Option Entry
  | [], _ => some (.file file)
  | name :: rest, there => do
    let d ← inside? there
    let made ← put? file rest (d.find? name)
    return .directory (d.insert name made)

variable {file : File} {name : Bytes} {rest : List Bytes} {there : Option Entry} {result : Entry}

theorem put?_cons : put? file (name :: rest) there = some result ↔ ∃ d made,
    inside? there = some d ∧ put? file rest (d.find? name) = some made
      ∧ result = .directory (d.insert name made) := by
  rw [put?, Option.bind_eq_bind, Option.bind_eq_some_iff]
  refine ⟨?_, ?_⟩
  · rintro ⟨d, inside, put⟩
    rw [Option.bind_eq_bind, Option.bind_eq_some_iff] at put
    obtain ⟨made, below, is⟩ := put
    exact ⟨d, made, inside, below, (Option.some.inj is).symm⟩
  · rintro ⟨d, made, inside, below, rfl⟩
    exact ⟨d, inside, by rw [below]; rfl⟩

/-- Below an entry, all that matters is the directory that things are put in. -/
theorem put?_of_inside? {d : Directory} (inside : inside? there = some d) :
    put? file (name :: rest) there = put? file (name :: rest) (some (.directory d)) := by
  rw [put?, put?, inside]
  rfl

theorem put?_of_not_inside? (outside : inside? there = none) :
    put? file (name :: rest) there = none := by
  rw [put?, outside]
  rfl

/-- Files can be put at two places in either order, if the places are apart. -/
theorem put?_comm {a b : List Bytes} {f g : File} {first second : Entry} (apart : Path.Apart a b)
    (putF : put? f a there = some first) (putG : put? g b (some first) = some second) :
    ∃ other, put? g b there = some other ∧ put? f a (some other) = some second := by
  induction a generalizing b there first second with
  | nil => exact absurd List.nil_prefix apart.1
  | cons n a ih =>
    obtain ⟨m, b, rfl⟩ := apart.exists_cons
    obtain ⟨d, x, inF, madeF, rfl⟩ := put?_cons.1 putF
    obtain ⟨e, y, inG, madeG, rfl⟩ := put?_cons.1 putG
    obtain rfl : d.insert n x = e := Option.some.inj inG
    by_cases same : n = m
    · -- Both go on in the entry of that name.
      subst same
      rw [Directory.find?_insert_self] at madeG
      obtain ⟨z, putZ, back⟩ := ih apart.of_cons madeF madeG
      refine ⟨_, put?_cons.2 ⟨d, z, inF, putZ, rfl⟩, put?_cons.2 ⟨_, y, rfl, ?_, ?_⟩⟩
      · rwa [Directory.find?_insert_self]
      · rw [Directory.insert_insert, Directory.insert_insert]
    · rw [Directory.find?_insert_of_ne d x (Ne.symm same)] at madeG
      refine ⟨_, put?_cons.2 ⟨d, y, inF, madeG, rfl⟩, put?_cons.2 ⟨_, x, rfl, ?_, ?_⟩⟩
      · rwa [Directory.find?_insert_of_ne d y same]
      · simp only [Directory.insert, Directory.entries, Directory.mtime,
          Entries.insert_comm same x y]

end Entry

namespace Directory

variable {d t : Directory} {path : Path} {file : File}

/-- A name on the way leads into a directory that is there or a new one, and that is put back. -/
theorem make_of_inside? {whole : Path} {f : Directory → Directory} {name : Bytes}
    {rest : List Path.Component} {sub : Directory}
    (inside : Entry.inside? (d.find? name) = some sub) :
    make whole f (.normal name :: rest) d
      = (d.insert name (.directory (make whole f rest sub).1), (make whole f rest sub).2) := by
  rw [make]
  match d.find? name, inside with
  | none, inside =>
    cases inside
    rfl
  | some (.directory _), inside =>
    cases inside
    rfl

theorem make_of_not_inside? {whole : Path} {f : Directory → Directory} {name : Bytes}
    {rest : List Path.Component} (outside : Entry.inside? (d.find? name) = none) :
    make whole f (.normal name :: rest) d = (d, .error (.notADirectory name)) := by
  rw [make]
  match d.find? name, outside with
  | some (.file _), _ => rfl

/-- The directory that something can be put in is in order when all are. -/
theorem ordered_of_inside? {name : Bytes} {sub : Directory} (ordered : d.ordered)
    (inside : Entry.inside? (d.find? name) = some sub) : sub.ordered := by
  match there : d.find? name, inside with
  | none, inside =>
    cases inside
    rfl
  | some (.directory _), inside =>
    cases inside
    cases d
    exact Entries.ordered_of_find? ordered there

/-- Making directories keeps the order, when what is done to the innermost one does. -/
theorem ordered_make {whole : Path} {f : Directory → Directory}
    (keeps : ∀ d, d.ordered → (f d).ordered) {cs : List Path.Component} (ordered : d.ordered) :
    (make whole f cs d).1.ordered := by
  induction cs generalizing d with
  | nil => exact keeps d ordered
  | cons c rest ih =>
    cases c with
    | root => exact ih ordered
    | normal name =>
      cases inside : Entry.inside? (d.find? name) with
      | none =>
        rw [make_of_not_inside? inside]
        exact ordered
      | some sub =>
        rw [make_of_inside? inside]
        exact ordered_insert ordered (ih (ordered_of_inside? ordered inside))
    | current | parent => exact ordered

/-- Making directories and putting a file into the last of them is putting the file at a place. -/
theorem make_eq_ok (whole : Path) (name : Bytes) (names : List Bytes) :
    (∃ reached, make whole (·.insert name (.file file)) (names.map .normal) d = (t, .ok reached))
      ↔ Entry.put? file (names ++ [name]) (some (.directory d)) = some (.directory t) := by
  induction names generalizing d t with
  | nil => simp [make, Entry.put?, Entry.inside?]
  | cons first rest ih =>
    obtain ⟨next, others, more⟩ : ∃ next others, rest ++ [name] = next :: others :=
      List.exists_cons_of_ne_nil (by simp)
    rw [List.map_cons, List.cons_append, Entry.put?_cons]
    cases inside : Entry.inside? (d.find? first) with
    | none =>
      rw [make_of_not_inside? inside, more]
      refine ⟨nofun, ?_⟩
      rintro ⟨_, made, ⟨⟩, below, _⟩
      rw [Entry.put?_of_not_inside? inside] at below
      cases below
    | some sub =>
      rw [make_of_inside? inside]
      refine ⟨?_, ?_⟩
      · rintro ⟨reached, is⟩
        obtain ⟨rfl, done⟩ := Prod.mk.inj is
        refine ⟨d, _, rfl, ?_, rfl⟩
        rw [more, Entry.put?_of_inside? inside, ← more]
        exact ih.1 ⟨reached, Prod.ext rfl done⟩
      · rintro ⟨_, made, ⟨⟩, below, is⟩
        rw [more, Entry.put?_of_inside? inside] at below
        obtain ⟨_, inner, ⟨⟩, _, rfl⟩ := Entry.put?_cons.1 below
        rw [← more] at below
        obtain ⟨reached, run⟩ := ih.2 below
        exact ⟨reached, by rw [run, Entry.directory.inj is]⟩

/-- Adding a file under a plain path is putting it at the place that the path names. -/
theorem addFile_eq_ok (plain : Path.IsPlain path) : d.addFile path file = (t, .ok ())
    ↔ Entry.put? file (Path.names path) (some (.directory d)) = some (.directory t) := by
  obtain ⟨none, is⟩ | ⟨q, name, front, found, parent, is, split⟩ :=
    Path.fileName?_of_isPlain plain
  · rw [addFile, none, is]
    exact ⟨nofun, nofun⟩
  · have way : makeDirectories d q (·.insert name (.file file))
        = make q (·.insert name (.file file)) (front.map .normal) d := by
      rw [makeDirectories]
      obtain split | split := split
      · rw [split]
      · rw [split, make]
    rw [addFile, found, parent, is, ← make_eq_ok q name front]
    simp only [Option.getD_some, way]
    cases make q (·.insert name (.file file)) (front.map .normal) d with
    | mk made reached =>
      cases reached with
      | ok inner => simp [Except.map]
      | error e => simp [Except.map]

/-- Two files whose places are apart can be added in either order. -/
theorem addFile_comm {s : Directory} {path' : Path} {file' : File} (plain : Path.IsPlain path)
    (plain' : Path.IsPlain path') (apart : Path.Apart (Path.names path) (Path.names path'))
    (first : d.addFile path file = (s, .ok ())) (second : s.addFile path' file' = (t, .ok ())) :
    ∃ s', d.addFile path' file' = (s', .ok ()) ∧ s'.addFile path file = (t, .ok ()) := by
  rw [addFile_eq_ok plain] at first
  rw [addFile_eq_ok plain'] at second
  obtain ⟨other, first', second'⟩ := Entry.put?_comm apart first second
  obtain ⟨name, rest, is⟩ := apart.exists_cons
  obtain ⟨_, made, _, _, rfl⟩ := Entry.put?_cons.1 (is ▸ first')
  exact ⟨_, (addFile_eq_ok plain').2 first', (addFile_eq_ok plain).2 second'⟩

/-- Adding a file keeps the order, also where it fails. -/
theorem ordered_addFile (ordered : d.ordered) : (d.addFile path file).1.ordered := by
  rw [addFile]
  cases Path.fileName? path with
  | none => exact ordered
  | some name => exact ordered_make (fun _ own => ordered_insert own rfl) ordered

/-! ## Any number of files -/

/-- Adds files one after the other, until one is refused. -/
def addFiles (d : Directory) : List (Path × File) → Except TreeError Directory
  | [] => .ok d
  | (path, file) :: rest =>
    match d.addFile path file with
    | (made, .ok ()) => made.addFiles rest
    | (_, .error e) => .error e

theorem addFiles_cons {rest : List (Path × File)} : d.addFiles ((path, file) :: rest) = .ok t
    ↔ ∃ s, d.addFile path file = (s, .ok ()) ∧ s.addFiles rest = .ok t := by
  rw [addFiles]
  split
  · next made done => simp [done]
  · next made e refused => simp [refused]

variable {pairs pairs' : List (Path × File)}

theorem ordered_addFiles (added : d.addFiles pairs = .ok t) (ordered : d.ordered) :
    t.ordered := by
  induction pairs generalizing d with
  | nil =>
    cases added
    exact ordered
  | cons pair rest ih =>
    obtain ⟨s, first, others⟩ := addFiles_cons.1 added
    have kept : (d.addFile pair.1 pair.2).1.ordered := ordered_addFile ordered
    rw [first] at kept
    exact ih others kept

/-- What files make of a tree when they are added in one order, they make of it in any other. -/
theorem addFiles_of_perm (perm : pairs.Perm pairs') (plain : ∀ pair ∈ pairs, Path.IsPlain pair.1)
    (apart : pairs.Pairwise fun a b => Path.Apart (Path.names a.1) (Path.names b.1))
    (added : d.addFiles pairs = .ok t) : d.addFiles pairs' = .ok t := by
  induction perm generalizing d with
  | nil => exact added
  | cons pair _ ih =>
    obtain ⟨s, first, others⟩ := addFiles_cons.1 added
    exact addFiles_cons.2 ⟨s, first, ih (List.forall_mem_cons.1 plain).2
      (List.pairwise_cons.1 apart).2 others⟩
  | swap pair pair' rest =>
    obtain ⟨s, first, others⟩ := addFiles_cons.1 added
    obtain ⟨s₂, second, rest⟩ := addFiles_cons.1 others
    obtain ⟨own, plain⟩ := List.forall_mem_cons.1 plain
    have next := (List.forall_mem_cons.1 plain).1
    have two := (List.pairwise_cons.1 apart).1 _ List.mem_cons_self
    obtain ⟨s', first', second'⟩ := addFile_comm own next two first second
    exact addFiles_cons.2 ⟨s', first', addFiles_cons.2 ⟨s₂, second', rest⟩⟩
  | trans middle _ ih ih' =>
    have plain' := fun pair mem => plain pair (middle.mem_iff.2 mem)
    have apart' := (middle.pairwise_iff fun h => h.symm).1 apart
    exact ih' plain' apart' (ih plain apart added)

/-- Files under plain paths, none of which is another one or above it. When they can all be added in
one order, they can be added in every order. The tree is then the same, with its names in order, and
so is its image, or the reason why it has none. -/
theorem addFiles_eq_of_perm (plain : ∀ pair ∈ pairs, Path.IsPlain pair.1)
    (apart : pairs.Pairwise fun a b => Path.Apart (Path.names a.1) (Path.names b.1))
    (added : d.addFiles pairs = .ok t) :
    (d.ordered → t.ordered) ∧ ∀ pairs', pairs.Perm pairs' → d.addFiles pairs' = .ok t
      ∧ ∀ sources o, (d.addFiles pairs').map (·.image sources o) = .ok (t.image sources o) := by
  refine ⟨ordered_addFiles added, fun pairs' perm => ?_⟩
  have same := addFiles_of_perm perm plain apart added
  exact ⟨same, fun sources o => by rw [same]; rfl⟩

/-- Files for the sample tree: one in its directory, one in a new directory and one in place of the
file that is there. -/
def additions : List (Path × File) :=
  [([0x2f, 0x61, 0x2f, 0x63], ⟨1, 0, .inline .empty⟩),
    ([0x64, 0x2f, 0x65], ⟨2, 0, .inline .empty⟩),
    ([0x62], ⟨3, 1, .inline ⟨#[7]⟩⟩)]

theorem addFiles_eq_of_perm_sample :
    (∀ pair ∈ additions, Path.IsPlain pair.1)
      ∧ additions.Pairwise (fun a b => Path.Apart (Path.names a.1) (Path.names b.1))
      ∧ ∃ t, sample.addFiles additions = .ok t ∧ t.ordered
        ∧ sample.addFiles additions.reverse = .ok t := by
  have plain : ∀ pair ∈ additions, Path.IsPlain pair.1 := by decide
  have apart : additions.Pairwise fun a b => Path.Apart (Path.names a.1) (Path.names b.1) := by
    decide
  obtain ⟨t, added⟩ : ∃ t, sample.addFiles additions = .ok t := ⟨_, rfl⟩
  obtain ⟨ordered, same⟩ := addFiles_eq_of_perm plain apart added
  exact ⟨plain, apart, t, added, ordered rfl, (same _ additions.reverse_perm.symm).1⟩

end Directory

end FlatImage
