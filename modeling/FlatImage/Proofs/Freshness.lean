import FlatImage.CommandLine.Compiler
import FlatImage.Proofs.Host.Relisting
import FlatImage.Proofs.Update

/-!
# When an image is current

An image is current when everything in its source was modified in an earlier second: the newest
modification time of a tree, which is found by a recursion over its directories, is below a time
just when that of everything in the tree is. So a tree with more in it, or with later times, never
makes an image current again, and what one more entry or one later time does to the verdict can be
said exactly.
-/

namespace FlatImage

/-! ## Entries older than a time -/

namespace Entry

theorem max_lt_iff {a b m : Int64} : max a b < m ↔ a < m ∧ b < m := by
  simp only [Int64.lt_iff_toInt_lt, Max.max, Int64.le_iff_toInt_le]
  split <;> omega

/-- The entry and everything below it were modified before a time. -/
def OlderThan (m : Int64) (entry : Entry) : Prop :=
  ∀ names inner, entry.at? names = some inner → inner.mtime < m

variable {m : Int64} {d : Directory} {f : File}

theorem mtime_eq_of_shell {entry entry' : Entry} (same : entry.shell = entry'.shell) :
    entry.mtime = entry'.mtime := by
  cases entry with
  | file => cases entry' with
    | file => exact congrArg File.mtime (Shell.file.inj same)
    | directory => cases same
  | directory => cases entry' with
    | file => cases same
    | directory => exact Shell.directory.inj same

theorem at?_append_of_none {entry : Entry} {names : List Bytes} (free : entry.at? names = none)
    (rest : List Bytes) : entry.at? (names ++ rest) = none := by
  induction names generalizing entry with
  | nil => cases free
  | cons name names ih =>
    cases entry with
    | file => rfl
    | directory d =>
      rw [List.cons_append, at?, Option.bind_eq_none_iff] at *
      exact fun inner found => ih (free inner found)

theorem olderThan_file : (Entry.file f).OlderThan m ↔ f.mtime < m := by
  refine ⟨fun older => older [] (.file f) rfl, fun before names inner there => ?_⟩
  cases names with
  | nil =>
    cases there
    exact before
  | cons => cases there

theorem olderThan_directory : (Entry.directory d).OlderThan m
    ↔ d.mtime < m ∧ ∀ name entry, d.find? name = some entry → entry.OlderThan m := by
  constructor
  · intro older
    refine ⟨older [] (.directory d) rfl, fun name entry found names inner there => ?_⟩
    apply older (name :: names) inner
    rw [at?, found]
    exact there
  · rintro ⟨own, below⟩ names inner there
    cases names with
    | nil =>
      cases there
      exact own
    | cons name rest =>
      obtain ⟨entry, found, there⟩ := Option.bind_eq_some_iff.1 there
      exact below name entry found rest inner there

end Entry

/-- What holds of each of several entries in order holds of the first and of each of the others. -/
theorem Entries.forall_find?_cons {name : Bytes} {entry : Entry} {rest : Entries}
    {P : Entry → Prop} (ordered : (cons name entry rest).ordered) :
    (∀ other found, (cons name entry rest).find? other = some found → P found)
      ↔ P entry ∧ ∀ other found, rest.find? other = some found → P found := by
  refine ⟨fun all => ⟨all name entry (find?_cons_self ..), fun other found there =>
    all other found (find?_cons_of_find? ordered there)⟩, ?_⟩
  rintro ⟨first, others⟩ other found there
  rw [find?] at there
  split at there
  · cases there
    exact first
  · exact others other found there

mutual

/-- The newest modification time is below a time just when all are. -/
theorem Directory.newest_lt_iff {m : Int64} (d : Directory) (ordered : d.ordered) :
    d.newest < m ↔ (Entry.directory d).OlderThan m := by
  cases d with
  | mk mtime entries =>
    rw [Entry.olderThan_directory]
    exact entries.newest_lt_iff mtime ordered

theorem Entries.newest_lt_iff {m : Int64} (entries : Entries) (other : Int64)
    (ordered : entries.ordered) : entries.newest other < m
      ↔ other < m ∧ ∀ name entry, entries.find? name = some entry → entry.OlderThan m := by
  cases entries with
  | nil =>
    refine ⟨fun before => ⟨before, fun name entry found => ?_⟩, And.left⟩
    cases found
  | cons name entry rest =>
    rw [Entries.forall_find?_cons ordered]
    simp only [Entries.ordered, Bool.and_eq_true] at ordered
    rw [Entries.newest, rest.newest_lt_iff _ ordered.2, Entry.max_lt_iff,
      entry.newest_lt_iff ordered.1.2, and_assoc]

theorem Entry.newest_lt_iff {m : Int64} (entry : Entry) (ordered : entry.ordered) :
    entry.newest < m ↔ entry.OlderThan m := by
  cases entry with
  | file f => exact Entry.olderThan_file.symm
  | directory d => exact d.newest_lt_iff ordered

end

namespace Directory

variable {m : Int64} {d t sub : Directory} {name : Bytes} {entry : Entry}

/-! ## Changes of a tree -/

/-- The directory and everything in it were modified before a time, but for the entry of a name. -/
def OlderBut (m : Int64) (name : Bytes) (d : Directory) : Prop :=
  d.mtime < m ∧ ∀ other entry, other ≠ name → d.find? other = some entry → entry.OlderThan m

theorem olderThan_iff_olderBut (name : Bytes) : (Entry.directory d).OlderThan m
    ↔ d.OlderBut m name ∧ ∀ entry, d.find? name = some entry → entry.OlderThan m := by
  rw [Entry.olderThan_directory]
  refine ⟨fun ⟨own, all⟩ => ⟨⟨own, fun other entry _ => all other entry⟩, all name⟩, ?_⟩
  rintro ⟨⟨own, others⟩, this⟩
  refine ⟨own, fun other entry found => ?_⟩
  by_cases is : other = name
  · exact this entry (is ▸ found)
  · exact others other entry is found

theorem olderThan_insert : (Entry.directory (d.insert name entry)).OlderThan m
    ↔ d.OlderBut m name ∧ entry.OlderThan m := by
  rw [olderThan_iff_olderBut name, find?_insert_self]
  refine and_congr (and_congr Iff.rfl ?_) ⟨fun all => all entry rfl, ?_⟩
  · refine forall_congr' fun other => forall_congr' fun found => forall_congr' fun ne => ?_
    rw [find?_insert_of_ne d entry ne]
  · intro older other is
    exact Option.some.inj is ▸ older

/-- A change of one directory leaves it open only of that directory whether the tree is older. -/
theorem olderThan_change {whole : Path} {f : Directory → Directory} {cs : List Path.Component}
    (found : descend whole cs d = .ok sub) (changed : change whole f cs d = .ok t) :
    ∃ elsewhere, ((Entry.directory d).OlderThan m ↔ elsewhere ∧ (Entry.directory sub).OlderThan m)
      ∧ ((Entry.directory t).OlderThan m ↔ elsewhere ∧ (Entry.directory (f sub)).OlderThan m) := by
  induction cs generalizing d t with
  | nil =>
    obtain rfl := Except.ok.inj found
    obtain rfl := Except.ok.inj changed
    exact ⟨True, (iff_of_eq (true_and _)).symm, (iff_of_eq (true_and _)).symm⟩
  | cons c rest ih =>
    cases c with
    | root => exact ih found changed
    | normal name =>
      obtain ⟨inner, there, below⟩ := descend_normal_eq_ok.1 found
      obtain ⟨made, changed', _⟩ := change_and_make f below
      obtain ⟨elsewhere, before, after⟩ := ih below changed'
      simp only [change, there, changed'] at changed
      obtain rfl := Except.ok.inj changed
      refine ⟨d.OlderBut m name ∧ elsewhere, ?_, ?_⟩
      · have only : (∀ entry, d.find? name = some entry → entry.OlderThan m)
            ↔ (Entry.directory inner).OlderThan m := by
          rw [there]
          exact ⟨fun all => all _ rfl, fun older _ is => Option.some.inj is ▸ older⟩
        rw [olderThan_iff_olderBut name, only, before, and_assoc]
      · rw [olderThan_insert, after, and_assoc]
    | current | parent => cases found

theorem ordered_change {whole : Path} {f : Directory → Directory} {cs : List Path.Component}
    (keeps : ∀ d, d.ordered → (f d).ordered) (ordered : d.ordered)
    (found : descend whole cs d = .ok sub) (changed : change whole f cs d = .ok t) : t.ordered := by
  obtain ⟨t', changed', made⟩ := change_and_make f found
  obtain rfl := Except.ok.inj (changed.symm.trans changed')
  have kept : (make whole f cs d).1.ordered := ordered_make keeps ordered
  rwa [made] at kept

/-- One more entry has to be older as well. -/
theorem olderThan_insert_new (free : d.find? name = none) :
    (Entry.directory (d.insert name entry)).OlderThan m
      ↔ (Entry.directory d).OlderThan m ∧ entry.OlderThan m := by
  have others : (Entry.directory d).OlderThan m ↔ d.OlderBut m name := by
    rw [olderThan_iff_olderBut name, free]
    exact and_iff_left nofun
  rw [olderThan_insert, others]

/-- A later modification time of a directory has to be older as well. -/
theorem olderThan_setMtime {raised : Int64} (later : d.mtime ≤ raised) :
    (Entry.directory (d.setMtime raised)).OlderThan m
      ↔ (Entry.directory d).OlderThan m ∧ raised < m := by
  rw [Entry.olderThan_directory, Entry.olderThan_directory]
  constructor
  · rintro ⟨own, below⟩
    exact ⟨⟨Int64.lt_of_le_of_lt later own, below⟩, own⟩
  · rintro ⟨⟨_, below⟩, own⟩
    exact ⟨own, below⟩

/-- A later modification time of a file has to be older as well. -/
theorem olderThan_insert_file {f : File} {raised : Int64}
    (found : d.find? name = some (.file f)) (later : f.mtime ≤ raised) :
    (Entry.directory (d.insert name (.file { f with mtime := raised }))).OlderThan m
      ↔ (Entry.directory d).OlderThan m ∧ raised < m := by
  have own : (∀ entry, d.find? name = some entry → entry.OlderThan m) ↔ f.mtime < m := by
    rw [found, ← Entry.olderThan_file]
    exact ⟨fun all => all _ rfl, fun older _ is => Option.some.inj is ▸ older⟩
  rw [olderThan_insert, olderThan_iff_olderBut name, own, Entry.olderThan_file]
  constructor
  · rintro ⟨others, before⟩
    exact ⟨⟨others, Int64.lt_of_le_of_lt later before⟩, before⟩
  · rintro ⟨⟨others, _⟩, before⟩
    exact ⟨others, before⟩

/-- Everything that is in a directory is in another one as well, and no earlier. -/
def NoEarlier (d d' : Directory) : Prop :=
  ∀ names inner, (Entry.directory d).at? names = some inner →
    ∃ inner', (Entry.directory d').at? names = some inner' ∧ inner.mtime ≤ inner'.mtime

theorem NoEarlier.olderThan {d' : Directory} (later : d.NoEarlier d')
    (older : (Entry.directory d').OlderThan m) : (Entry.directory d).OlderThan m := by
  intro names inner there
  obtain ⟨inner', there', upTo⟩ := later names inner there
  have before := older names inner' there'
  rw [Int64.lt_iff_toInt_lt] at before ⊢
  rw [Int64.le_iff_toInt_le] at upTo
  omega

end Directory

/-- A file that is added where nothing was leaves everything as it was. -/
theorem Directory.noEarlier_of_addFile {d t : Directory} {path : Path} {file : File}
    (ordered : d.ordered) (added : d.addFile path file = (t, .ok ()))
    (free : (Entry.directory d).at? (Path.names path) = none) : d.NoEarlier t := by
  intro names inner there
  have apart : ¬ Path.names path <+: names := by
    rintro ⟨rest, rfl⟩
    cases there.symm.trans (Entry.at?_append_of_none free rest)
  have updated := updated_of_put? ordered ((addFile_eq_ok (isPlain_of_addFile added)).1 added)
  have kept := updated.kept names inner.shell apart (by rw [shellAt?, there]; rfl)
  obtain ⟨inner', there', same⟩ := Option.map_eq_some_iff.1 kept
  refine ⟨inner', there', ?_⟩
  rw [Entry.mtime_eq_of_shell same]
  exact Int64.le_refl _

namespace Host

variable {h : Host} {root : Directory} {dest : Path}

/-- An image is current when it has a modification time, in seconds from the epoch on, and
everything in the tree is older. -/
theorem isCurrent_iff (ordered : root.ordered) : h.isCurrent root dest
    ↔ ∃ m, h.modified? dest = some m ∧ 0 ≤ m ∧ (Entry.directory root).OlderThan m := by
  unfold isCurrent
  cases h.modified? dest with
  | none => exact ⟨nofun, nofun⟩
  | some m =>
    simp only [Bool.and_eq_true, decide_eq_true_eq, root.newest_lt_iff ordered]
    exact ⟨fun current => ⟨m, rfl, current⟩, fun ⟨_, is, current⟩ => Option.some.inj is ▸ current⟩

/-- What a changed tree demands beside the old one is what the verdict on it depends on besides. -/
theorem isCurrent_of_olderThan {changed : Directory} {demand : Int64 → Prop}
    (ordered : root.ordered) (ordered' : changed.ordered) (iff : ∀ m,
      (Entry.directory changed).OlderThan m ↔ (Entry.directory root).OlderThan m ∧ demand m) :
    h.isCurrent changed dest
      ↔ h.isCurrent root dest ∧ ∀ m, h.modified? dest = some m → demand m := by
  rw [isCurrent_iff ordered, isCurrent_iff ordered']
  constructor
  · rintro ⟨m, modified, some, older⟩
    obtain ⟨older, demanded⟩ := (iff m).1 older
    exact ⟨⟨m, modified, some, older⟩,
      fun m' modified' => Option.some.inj (modified.symm.trans modified') ▸ demanded⟩
  · rintro ⟨⟨m, modified, some, older⟩, demanded⟩
    exact ⟨m, modified, some, (iff m).2 ⟨older, demanded m modified⟩⟩

/-- What is changed in one directory of a tree decides what the verdict depends on besides. -/
theorem isCurrent_update {path : Path} {sub : Directory} {f : Directory → Directory}
    {demand : Int64 → Prop} (ordered : root.ordered) (keeps : ∀ d, d.ordered → (f d).ordered)
    (found : root.at? path = .ok sub) (iff : ∀ m, (Entry.directory (f sub)).OlderThan m
      ↔ (Entry.directory sub).OlderThan m ∧ demand m) :
    ∃ changed, root.update path f = .ok changed ∧ (h.isCurrent changed dest
      ↔ h.isCurrent root dest ∧ ∀ m, h.modified? dest = some m → demand m) := by
  obtain ⟨changed, is, _⟩ := Directory.change_and_make f found
  refine ⟨changed, is, isCurrent_of_olderThan ordered
    (Directory.ordered_change keeps ordered found is) fun m => ?_⟩
  obtain ⟨elsewhere, before, after⟩ := Directory.olderThan_change found is
  rw [before, after, iff, and_assoc]

end Host

namespace CommandLine.Compiler

/-- What a run writes when the image is there. -/
def digestOf (arguments : Arguments) (h : Host) : Except (Fault RunError) String :=
  if arguments.flag "digest" then digestLine h (arguments.operand 1) else .ok ""

/-- A rebuild of the image, and what the run writes after it. -/
def rebuild (arguments : Arguments) (root : FlatImage.Directory) (o : Options) (h : Host) :
    Except (Fault RunError) String × Host :=
  match h.compileTo root (arguments.operand 1) o with
  | (.error e, after) => (.error e, after)
  | (.ok _, after) => (digestOf arguments after, after)

/-- After a walk, all that is asked before a rebuild is whether it is wanted at all. -/
theorem run_of_readTree {arguments : Arguments} {environment : Option Bytes} {time : Option UInt64}
    {root : FlatImage.Directory} {h : Host} (timed : timestamp arguments environment = .ok time)
    (valid : (options arguments time).validate = .ok ())
    (read : h.readTree (arguments.operand 0) (options arguments time) = .ok root) :
    run arguments environment h
      = if arguments.flag "if-stale" && h.isCurrent root (arguments.operand 1) then
          (digestOf arguments h, h)
        else rebuild arguments root (options arguments time) h := by
  simp only [run, timed, valid, read, build, rebuild]
  cases wanted : arguments.flag "if-stale" && h.isCurrent root (arguments.operand 1) with
  | true => rfl
  | false =>
    simp only [Bool.false_eq_true, if_false]
    cases h.compileTo root (arguments.operand 1) (options arguments time) with
    | mk result after =>
      cases result with
      | ok => rfl
      | error => rfl

end CommandLine.Compiler

namespace Host

/-- The image at a path is current for a tree exactly when it was modified at the epoch or later and
everything in the tree, itself among it, in an earlier second. So it is not made current again by a
tree with more in it or with later times, nor by a file that is added where nothing was; one more
entry leaves it current if all of it is older, and a later modification time if that one is. A run
that compiles stale images only starts a rebuild, once it has walked the source, just when the image
is not current. -/
theorem freshness_of_ordered {root : FlatImage.Directory} (ordered : root.ordered) (h : Host)
    (dest : Path) :
    (h.isCurrent root dest ↔ ∃ m, h.modified? dest = some m ∧ 0 ≤ m
        ∧ ∀ names inner, (Entry.directory root).at? names = some inner → inner.mtime < m)
      ∧ (∀ later : FlatImage.Directory, later.ordered → root.NoEarlier later →
        h.isCurrent later dest → h.isCurrent root dest)
      ∧ (∀ path file grown, root.addFile path file = (grown, .ok ()) →
        (Entry.directory root).at? (Path.names path) = none →
        h.isCurrent grown dest → h.isCurrent root dest)
      ∧ (∀ path sub, root.at? path = .ok sub →
        (∀ name entry, entry.ordered → sub.find? name = none →
          ∃ grown, root.update path (·.insert name entry) = .ok grown
            ∧ (h.isCurrent grown dest ↔ h.isCurrent root dest
              ∧ ∀ m, h.modified? dest = some m → entry.OlderThan m))
        ∧ (∀ raised, sub.mtime ≤ raised →
          ∃ later, root.update path (·.setMtime raised) = .ok later
            ∧ (h.isCurrent later dest ↔ h.isCurrent root dest
              ∧ ∀ m, h.modified? dest = some m → raised < m))
        ∧ ∀ name f raised, sub.find? name = some (.file f) → f.mtime ≤ raised →
          ∃ later, root.update path (·.insert name (.file { f with mtime := raised })) = .ok later
            ∧ (h.isCurrent later dest ↔ h.isCurrent root dest
              ∧ ∀ m, h.modified? dest = some m → raised < m))
      ∧ ∀ arguments environment time,
        CommandLine.Compiler.timestamp arguments environment = .ok time →
        (CommandLine.Compiler.options arguments time).validate = .ok () →
        h.readTree (arguments.operand 0) (CommandLine.Compiler.options arguments time)
          = .ok root →
        arguments.operand 1 = dest → arguments.flag "if-stale" →
        CommandLine.Compiler.run arguments environment h
          = if h.isCurrent root dest then (CommandLine.Compiler.digestOf arguments h, h)
            else CommandLine.Compiler.rebuild arguments root
              (CommandLine.Compiler.options arguments time) h := by
  have monotone (later : FlatImage.Directory) (ordered' : later.ordered)
      (noEarlier : root.NoEarlier later) (current : h.isCurrent later dest) :
      h.isCurrent root dest := by
    obtain ⟨m, modified, some, older⟩ := (isCurrent_iff ordered').1 current
    exact (isCurrent_iff ordered).2 ⟨m, modified, some, noEarlier.olderThan older⟩
  refine ⟨isCurrent_iff ordered, monotone, ?_, ?_, ?_⟩
  · intro path file grown added free
    have ordered' : (root.addFile path file).1.ordered := Directory.ordered_addFile ordered
    rw [added] at ordered'
    exact monotone grown ordered' (Directory.noEarlier_of_addFile ordered added free)
  · intro path sub found
    refine ⟨?_, ?_, ?_⟩
    · intro name entry inside free
      exact isCurrent_update ordered (fun _ own => Directory.ordered_insert own inside) found
        fun m => Directory.olderThan_insert_new free
    · intro raised later
      refine isCurrent_update ordered (fun d own => ?_) found
        fun m => Directory.olderThan_setMtime later
      cases d
      exact own
    · intro name f raised there later
      exact isCurrent_update ordered (fun _ own => Directory.ordered_insert own rfl) found
        fun m => Directory.olderThan_insert_file there later
  · rintro arguments environment time timed valid read rfl stale
    rw [CommandLine.Compiler.run_of_readTree timed valid read, stale, Bool.true_and]

/-- What the path of a file in the current directory leads to was modified when the file was. -/
theorem modified?_of_name {h : Host} {name : Bytes} {f : File}
    (checked : Name.check name = .ok ())
    (is : h.at? (h.current ++ [name]) = some (.file f)) : h.modified? name = some f.mtime := by
  obtain ⟨some, _, _, slash, zero, short⟩ := Name.plain_of_check checked
  have origin : h.origin name = h.current := by
    rw [Host.origin, Name.isAbsolute_of_check checked]
    rfl
  have led : h.follow true mostLinks (Path.segments name) (h.origin name)
      = .ok (.found (h.current ++ [name]) (.file f)) := by
    rw [origin, Path.segments_of_notMem slash, follow_file checked is]
  have found : h.lookup name true = .ok (h.current ++ [name], .file f) :=
    lookup_eq_ok_iff.2 (resolve_eq_ok_iff.2 ⟨some, Nat.lt_of_le_of_lt short (by decide), led⟩)
  have noZero : hasZero name = false := by simpa [hasZero] using zero
  simp only [modified?, noZero, found, Bool.false_eq_true, if_false]
  rfl

/-- A host with a directory `s` of a file and a directory, and an image `i` of a later date. -/
def press : Host :=
  ⟨.directory 0 (.cons [0x73] (.directory 7 (.cons [0x62] (.file ⟨.hole 3, 5, false⟩)
    (.cons [0x61] (.directory 6 .nil) .nil))) (.cons [0x69] (.file ⟨.hole 0, 8, false⟩) .nil)),
    [], 9⟩

/-- The image is current for the tree that is walked, and nothing is done. With one more file of its
own second it is not current any more, and neither is it with a directory of that second. -/
theorem freshness_of_ordered_press : ∃ root : FlatImage.Directory, root.ordered
    ∧ CommandLine.Compiler.run { operands := [[0x73], [0x69]], flags := ["if-stale"] } none press
      = (.ok "", press)
    ∧ (∃ grown, root.update [0x61] (·.insert [0x62] (.file ⟨8, 0, .inline .empty⟩)) = .ok grown
      ∧ ¬ press.isCurrent grown [0x69])
    ∧ ∃ later, root.update [0x61] (·.setMtime 8) = .ok later ∧ ¬ press.isCurrent later [0x69] := by
  have image : press.at? (press.current ++ [[0x69]]) = some (.file ⟨.hole 0, 8, false⟩) := rfl
  have modified : press.modified? [0x69] = some 8 := modified?_of_name rfl image
  have opened : press.openDirectory [0x73] true = .ok [[0x73]] := openDirectory_of_name rfl rfl
  obtain ⟨root, read⟩ : ∃ root, press.readTree [0x73] {} = .ok root :=
    ⟨_, (readTree_eq_ok_iff opened rfl).2
      ⟨⟨fun _ => rfl, (by decide : 3 ≤ _), fun _ => rfl, trivial, trivial⟩, rfl⟩⟩
  obtain ⟨_, is⟩ := (readTree_eq_ok_iff opened rfl).1 read
  have ordered : root.ordered := is ▸ Nodes.ordered_tree ..
  have current : press.isCurrent root [0x69] := by
    rw [isCurrent, modified, is]
    rfl
  obtain ⟨_, _, _, edits, runs⟩ := freshness_of_ordered ordered press [0x69]
  have run := runs { operands := [[0x73], [0x69]], flags := ["if-stale"] } none none rfl rfl read
    rfl rfl
  rw [if_pos current] at run
  obtain ⟨added, raised, _⟩ := edits [0x61] (.mk 6 .nil) (is ▸ rfl)
  obtain ⟨grown, made, stale⟩ := added [0x62] (.file ⟨8, 0, .inline .empty⟩) rfl rfl
  obtain ⟨later, set, stale'⟩ := raised 8 (by decide)
  refine ⟨root, ordered, run, ⟨grown, made, fun still => ?_⟩, later, set, fun still => ?_⟩
  · exact absurd ((stale.1 still).2 8 modified [] _ rfl) (by decide)
  · exact absurd ((stale'.1 still).2 8 modified) (by decide)

end Host
end FlatImage
