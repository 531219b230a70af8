import FlatImage.Proofs.Addition

/-!
# Making directories

Making the directories of a path against finding the directory at it. Where there is one, nothing is
made. Where there is none, the tree grows along the path by empty directories and by nothing else,
and then the directory is found. Growing can stop at a file or at a component that does not lead
down. The tree has not grown at all when it stops at a file, since no file is met below a directory
that was just made.

What is seen of a tree is the shell of the entry at each place: a file with all that it has, and of
a directory its modification time.
-/

namespace FlatImage

/-! ## Growth -/

namespace Entry

/-- An entry without what is below it. -/
inductive Shell where
  | file (file : File)
  | directory (mtime : Int64)

def shell : Entry → Shell
  | file f => .file f
  | directory d => .directory d.mtime

end Entry

namespace Directory

/-- The shell of the entry at a place. The directory itself is at the empty place. -/
def shellAt? (d : Directory) (place : List Bytes) : Option Entry.Shell :=
  ((Entry.directory d).at? place).map Entry.shell

/-- A directory with everything that was there as it was, and besides with nothing but new
directories of modification time zero at places along some names. -/
structure Grown (names : List Bytes) (d d' : Directory) : Prop where
  kept : ∀ place shell, d.shellAt? place = some shell → d'.shellAt? place = some shell
  new : ∀ place shell, d'.shellAt? place = some shell → d.shellAt? place = none →
    place <+: names ∧ shell = .directory 0

variable {d d' sub made : Directory} {name : Bytes} {names names' : List Bytes}

theorem shellAt?_cons (d : Directory) (name : Bytes) (rest : List Bytes) :
    d.shellAt? (name :: rest) = ((d.find? name).bind (Entry.at? rest)).map Entry.shell := rfl

theorem shellAt?_of_find? (found : d.find? name = some (.directory sub)) (rest : List Bytes) :
    d.shellAt? (name :: rest) = sub.shellAt? rest := by
  rw [shellAt?_cons, found]
  rfl

theorem shellAt?_of_find?_none (missing : d.find? name = none) (rest : List Bytes) :
    d.shellAt? (name :: rest) = none := by
  rw [shellAt?_cons, missing]
  rfl

theorem shellAt?_insert_of_ne {other : Bytes} (entry : Entry) (ne : other ≠ name)
    (rest : List Bytes) : (d.insert name entry).shellAt? (other :: rest)
      = d.shellAt? (other :: rest) := by
  rw [shellAt?_cons, shellAt?_cons, find?_insert_of_ne d entry ne]

theorem shellAt?_empty (place : List Bytes) :
    empty.shellAt? place = if place = [] then some (.directory 0) else none := by
  cases place with
  | nil => rfl
  | cons name rest => exact shellAt?_of_find?_none rfl rest

namespace Grown

theorem refl (names : List Bytes) (d : Directory) : d.Grown names d where
  kept _ _ there := there
  new _ _ there missing := nomatch there.symm.trans missing

theorem mono (grown : d.Grown names d') (front : names <+: names') : d.Grown names' d' where
  kept := grown.kept
  new place shell there missing := by
    obtain ⟨along, is⟩ := grown.new place shell there missing
    exact ⟨along.trans front, is⟩

/-- A directory grows where one that is in it grows. -/
theorem insert (found : d.find? name = some (.directory sub)) (grown : sub.Grown names made) :
    d.Grown (name :: names) (d.insert name (.directory made)) := by
  constructor
  · rintro (_ | ⟨other, rest⟩) shell there
    · exact there
    · by_cases is : other = name
      · subst is
        rw [shellAt?_of_find? (d.find?_insert_self other _)]
        exact grown.kept rest shell ((shellAt?_of_find? found rest).symm.trans there)
      · rwa [shellAt?_insert_of_ne _ is]
  · rintro (_ | ⟨other, rest⟩) shell there missing
    · cases there.symm.trans missing
    · by_cases is : other = name
      · subst is
        rw [shellAt?_of_find? (d.find?_insert_self other _)] at there
        rw [shellAt?_of_find? found] at missing
        obtain ⟨along, is⟩ := grown.new rest shell there missing
        exact ⟨List.cons_prefix_cons.2 ⟨rfl, along⟩, is⟩
      · rw [shellAt?_insert_of_ne _ is] at there
        cases there.symm.trans missing

/-- A directory grows by a new one of a name that it did not have, and by what that one grows. -/
theorem insert_new (missing : d.find? name = none) (grown : empty.Grown names made) :
    d.Grown (name :: names) (d.insert name (.directory made)) := by
  constructor
  · rintro (_ | ⟨other, rest⟩) shell there
    · exact there
    · have ne : other ≠ name := by
        rintro rfl
        cases there.symm.trans (shellAt?_of_find?_none missing rest)
      rwa [shellAt?_insert_of_ne _ ne]
  · rintro (_ | ⟨other, rest⟩) shell there none
    · cases there.symm.trans none
    · by_cases is : other = name
      · subst is
        rw [shellAt?_of_find? (d.find?_insert_self other _)] at there
        rw [List.cons_prefix_cons]
        by_cases own : rest = []
        · subst own
          obtain rfl := Option.some.inj (there.symm.trans (grown.kept [] _ rfl))
          exact ⟨⟨rfl, List.nil_prefix⟩, rfl⟩
        · obtain ⟨along, is⟩ := grown.new rest shell there (by rw [shellAt?_empty, if_neg own])
          exact ⟨⟨rfl, along⟩, is⟩
      · rw [shellAt?_insert_of_ne _ is] at there
        cases there.symm.trans none

end Grown

end Directory

/-! ## Along the components of a path -/

namespace Path

/-- The component leads down, or nowhere as a separator at the start does. -/
def Component.leads : Component → Bool
  | .root | .normal _ => true
  | .current | .parent => false

/-- The names among components up to the first that does not lead down. -/
def Component.leading (cs : List Component) : List Bytes :=
  (cs.takeWhile Component.leads).filterMap Component.name?

/-- The names on a path up to the first component that does not lead down. -/
def leading (p : Path) : List Bytes := Component.leading (components p)

theorem leading_prefix_names (p : Path) : leading p <+: names p :=
  (List.takeWhile_prefix _).filterMap _

theorem Component.leading_append_prefix (front back : List Component) :
    leading front <+: leading (front ++ back) := by
  have down : front.takeWhile leads <+: (front ++ back).takeWhile leads := by
    rw [List.takeWhile_append]
    split
    · exact (List.takeWhile_prefix _).trans (List.prefix_append ..)
    · exact List.prefix_rfl
  exact down.filterMap _

end Path

namespace Directory

/-- An entry that is put where it is changes nothing. -/
theorem insert_of_find? {d : Directory} {name : Bytes} {entry : Entry} (ordered : d.ordered)
    (found : d.find? name = some entry) : d.insert name entry = d := by
  have inside : entry.ordered := by
    cases d
    exact Entries.ordered_of_find? ordered found
  refine eq_of_find? (ordered_insert ordered inside) ordered (mtime_insert ..) fun other => ?_
  by_cases is : other = name
  · rw [is, find?_insert_self, found]
  · exact find?_insert_of_ne d entry is

variable {d t sub : Directory} {whole : Path} {f : Directory → Directory}
variable {cs : List Path.Component}

theorem descend_normal_eq_ok {name : Bytes} : descend whole (.normal name :: cs) d = .ok sub
    ↔ ∃ inner, d.find? name = some (.directory inner) ∧ descend whole cs inner = .ok sub := by
  rw [descend]
  match d.find? name with
  | none => exact ⟨nofun, nofun⟩
  | some (.file _) => exact ⟨nofun, nofun⟩
  | some (.directory inner) => simp

/-- A directory that is found can be changed, and making directories does the same. -/
theorem change_and_make (f : Directory → Directory) (found : descend whole cs d = .ok sub) :
    ∃ t, change whole f cs d = .ok t ∧ make whole f cs d = (t, .ok (f sub)) := by
  induction cs generalizing d with
  | nil =>
    obtain rfl := Except.ok.inj found
    exact ⟨_, rfl, rfl⟩
  | cons c rest ih =>
    cases c with
    | root => exact ih found
    | normal name =>
      obtain ⟨inner, there, below⟩ := descend_normal_eq_ok.1 found
      obtain ⟨t, changed, made⟩ := ih below
      refine ⟨d.insert name (.directory t), ?_, ?_⟩
      · simp only [change, there, changed]
        rfl
      · rw [make_of_inside? (by rw [there]; rfl), made]
    | current | parent => cases found

/-- Where a directory is found, none is made. -/
theorem make_of_descend (ordered : d.ordered) (found : descend whole cs d = .ok sub) :
    make whole id cs d = (d, .ok sub) := by
  induction cs generalizing d with
  | nil =>
    obtain rfl := Except.ok.inj found
    rfl
  | cons c rest ih =>
    cases c with
    | root => exact ih ordered found
    | normal name =>
      obtain ⟨inner, there, below⟩ := descend_normal_eq_ok.1 found
      have inside : Entry.inside? (d.find? name) = some inner := by rw [there]; rfl
      rw [make_of_inside? inside, ih (ordered_of_inside? ordered inside) below,
        insert_of_find? ordered there]
    | current | parent => cases found

theorem descend_of_make (made : (make whole id cs d).2 = .ok sub) :
    descend whole cs (make whole id cs d).1 = .ok sub := by
  induction cs generalizing d with
  | nil => exact made
  | cons c rest ih =>
    cases c with
    | root => exact ih made
    | normal name =>
      cases inside : Entry.inside? (d.find? name) with
      | none =>
        rw [make_of_not_inside? inside] at made
        cases made
      | some inner =>
        rw [make_of_inside? inside] at made ⊢
        exact descend_normal_eq_ok.2 ⟨_, d.find?_insert_self name _, ih made⟩
    | current | parent => cases made

/-- Making directories that were made before changes the innermost one only. -/
theorem make_make (f : Directory → Directory) (cs : List Path.Component) (d : Directory) :
    make whole f cs (make whole id cs d).1 = make whole f cs d := by
  induction cs generalizing d with
  | nil => rfl
  | cons c rest ih =>
    cases c with
    | root => exact ih d
    | normal name =>
      cases inside : Entry.inside? (d.find? name) with
      | none => rw [make_of_not_inside? inside]
      | some inner =>
        have again : Entry.inside? ((d.insert name
            (.directory (make whole id rest inner).1)).find? name)
            = some (make whole id rest inner).1 := by
          rw [find?_insert_self]
          rfl
        rw [make_of_inside? inside, make_of_inside? inside, make_of_inside? again, ih inner,
          insert_insert]
    | current | parent => rfl

/-- A tree grows along the names that lead down. -/
theorem grown_make (cs : List Path.Component) (d : Directory) :
    d.Grown (Path.Component.leading cs) (make whole id cs d).1 := by
  induction cs generalizing d with
  | nil => exact .refl _ d
  | cons c rest ih =>
    cases c with
    | root => exact ih d
    | normal name =>
      cases there : d.find? name with
      | none =>
        rw [make_of_inside? (by rw [there]; rfl)]
        exact .insert_new there (ih empty)
      | some entry =>
        cases entry with
        | file _ =>
          rw [make_of_not_inside? (by rw [there]; rfl)]
          exact .refl _ d
        | directory inner =>
          rw [make_of_inside? (by rw [there]; rfl)]
          exact .insert there (ih inner)
    | current | parent => exact .refl _ d

/-- Where making fails, the innermost directory is not reached, so what would be done to it does not
matter. -/
theorem make_of_error {e : TreeError} (g : Directory → Directory)
    (failed : (make whole f cs d).2 = .error e) : make whole g cs d = make whole f cs d := by
  induction cs generalizing d with
  | nil => cases failed
  | cons c rest ih =>
    cases c with
    | root => exact ih failed
    | normal name =>
      cases inside : Entry.inside? (d.find? name) with
      | none => rw [make_of_not_inside? inside, make_of_not_inside? inside]
      | some inner =>
        rw [make_of_inside? inside] at failed
        rw [make_of_inside? inside, make_of_inside? inside, ih failed]
    | current | parent => rfl

/-- Below a new directory no file is met. -/
theorem make_empty_ne_notADirectory {name : Bytes} :
    (make whole f cs empty).2 ≠ .error (.notADirectory name) := by
  induction cs with
  | nil => exact nofun
  | cons c rest ih =>
    cases c with
    | root => exact ih
    | normal =>
      rw [make_of_inside? rfl]
      exact ih
    | current | parent => exact nofun

/-- When a file is in the way, only directories that were there before have been passed. -/
theorem make_of_notADirectory {name : Bytes} (ordered : d.ordered)
    (failed : (make whole f cs d).2 = .error (.notADirectory name)) :
    (make whole f cs d).1 = d := by
  induction cs generalizing d with
  | nil => cases failed
  | cons c rest ih =>
    cases c with
    | root => exact ih ordered failed
    | normal next =>
      cases there : d.find? next with
      | none =>
        rw [make_of_inside? (by rw [there]; rfl)] at failed
        exact absurd failed make_empty_ne_notADirectory
      | some entry =>
        cases entry with
        | file _ => rw [make_of_not_inside? (by rw [there]; rfl)]
        | directory inner =>
          have inside : Entry.inside? (d.find? next) = some inner := by rw [there]; rfl
          rw [make_of_inside? inside] at failed ⊢
          have kept := ih (ordered_of_inside? ordered inside) failed
          simp only [kept, insert_of_find? ordered there]
    | current | parent => rfl

/-- Adding a file fails because its path has no last name, and then nothing is done, or because the
directories of the path in front of that name cannot be made. -/
theorem addFile_error {path : Path} {file : File} {e : TreeError}
    (failed : (d.addFile path file).2 = .error e) :
    ((d.addFile path file).1 = d ∧ e = .invalidFilename path)
      ∨ ∃ q name f, Path.components path = Path.components q ++ [.normal name]
        ∧ (d.addFile path file).1 = (d.makeDirectories q f).1
        ∧ (d.makeDirectories q f).2 = .error e := by
  rw [addFile] at failed ⊢
  cases found : Path.fileName? path with
  | none =>
    rw [found] at failed
    exact .inl ⟨rfl, (Except.error.inj failed).symm⟩
  | some name =>
    obtain ⟨q, parent, split⟩ := Path.components_of_fileName? found
    rw [found, parent] at failed
    rw [parent]
    refine .inr ⟨q, name, (·.insert name (.file file)), split, rfl, ?_⟩
    simp only [Option.getD_some] at failed
    cases reached : (d.makeDirectories q (·.insert name (.file file))).2 with
    | ok inner =>
      rw [reached] at failed
      cases failed
    | error e' =>
      rw [reached] at failed
      obtain rfl := Except.error.inj failed
      rfl

/-- Making the directories of a path, beside finding the directory at it. A directory that is found
is reached without a change of the tree. When directories are made the tree grows by nothing else,
and then the directory is found where it was reached: whatever is done to it is done at the path.
A failure at a file leaves the tree as it was, and a failure at a component that does not lead down
leaves it grown along the names before at most; both also hold of adding a file. In every case the
tree stays in order, so what is at its places is all of it. -/
theorem makeDirectories_at? (ordered : d.ordered) (path : Path) :
    (∀ sub, d.at? path = .ok sub → d.makeDirectories path id = (d, .ok sub)
        ∧ ∀ f, ∃ t, d.update path f = .ok t ∧ d.makeDirectories path f = (t, .ok (f sub)))
      ∧ (∀ d' sub, d.makeDirectories path id = (d', .ok sub) →
        d.Grown (Path.names path) d' ∧ d'.at? path = .ok sub
          ∧ ∀ f, ∃ t, d'.update path f = .ok t ∧ d.makeDirectories path f = (t, .ok (f sub)))
      ∧ (∀ name, (∀ f, (d.makeDirectories path f).2 = .error (.notADirectory name) →
          (d.makeDirectories path f).1 = d)
        ∧ ∀ file, (d.addFile path file).2 = .error (.notADirectory name) →
          (d.addFile path file).1 = d)
      ∧ (∀ shown, (∀ f, (d.makeDirectories path f).2 = .error (.invalidFilename shown) →
          d.Grown (Path.leading path) (d.makeDirectories path f).1)
        ∧ ∀ file, (d.addFile path file).2 = .error (.invalidFilename shown) →
          d.Grown (Path.leading path) (d.addFile path file).1)
      ∧ (d.makeDirectories path id).1.ordered
      ∧ ∀ file, (d.addFile path file).1.ordered := by
  refine ⟨?_, ?_, ?_, ?_, ordered_make (fun _ own => own) ordered,
    fun file => ordered_addFile ordered⟩
  · intro sub found
    exact ⟨make_of_descend ordered found, fun f => change_and_make f found⟩
  · intro d' sub made
    obtain ⟨rfl, reached⟩ := Prod.mk.inj made
    have found := descend_of_make reached
    refine ⟨(grown_make _ d).mono (Path.leading_prefix_names path), found, fun f => ?_⟩
    have same : d.makeDirectories path f = _ := (make_make f (Path.components path) d).symm
    rw [same]
    exact change_and_make f found
  · intro name
    refine ⟨fun f failed => make_of_notADirectory ordered failed, fun file failed => ?_⟩
    obtain ⟨kept, _⟩ | ⟨q, _, f, _, same, failed⟩ := addFile_error failed
    · exact kept
    · rw [same]
      exact make_of_notADirectory ordered failed
  · intro shown
    have grown (q : Path) (f : Directory → Directory)
        (failed : (d.makeDirectories q f).2 = .error (.invalidFilename shown)) :
        d.Grown (Path.leading q) (d.makeDirectories q f).1 := by
      have same : d.makeDirectories q id = d.makeDirectories q f := make_of_error id failed
      rw [← same]
      exact grown_make _ d
    refine ⟨grown path, fun file failed => ?_⟩
    obtain ⟨kept, _⟩ | ⟨q, name, f, split, same, failed⟩ := addFile_error failed
    · rw [kept]
      exact .refl _ d
    · rw [same]
      refine (grown q f failed).mono ?_
      rw [Path.leading, Path.leading, split]
      exact Path.Component.leading_append_prefix ..

/-- The directory of the sample tree gets one of its own. -/
theorem makeDirectories_at?_sample : ∃ d' sub,
    sample.makeDirectories [0x2f, 0x61, 0x2f, 0x63] id = (d', .ok sub)
      ∧ sample.Grown [[0x61], [0x63]] d' ∧ d'.at? [0x2f, 0x61, 0x2f, 0x63] = .ok sub := by
  obtain ⟨_, made, _⟩ := makeDirectories_at? (d := sample) rfl [0x2f, 0x61, 0x2f, 0x63]
  obtain ⟨grown, found, _⟩ := made _ .empty rfl
  exact ⟨_, .empty, rfl, grown, found⟩

end Directory

end FlatImage
