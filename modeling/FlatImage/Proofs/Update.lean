import FlatImage.Proofs.MakingDirectories

/-!
# Adding a file as an update

A file that is added is found at the place that its path names, whatever was there before, and of
everything that is neither there nor below nothing is lost. All that comes besides are the
directories above the place that were missing. So the number of entries is known: every one that is
new counts, and what was replaced, with all that was below it, counts no longer.

A path under which a file can be added is plain. What is shown of adding it is shown of putting the
file at a list of names, by induction along the names.
-/

namespace FlatImage

/-! ## Paths that lead down -/

namespace Path

theorem inner_of_leads {ss : List Bytes} (down : ∀ c ∈ inner ss, c.leads) :
    inner ss = ((inner ss).filterMap Component.name?).map .normal := by
  induction ss with
  | nil => rfl
  | cons s rest ih =>
    cases stands : Component.ofSegment? s with
    | none =>
      rw [inner, List.filterMap_cons_none stands] at down ⊢
      exact ih down
    | some c =>
      rw [inner, List.filterMap_cons_some stands] at down ⊢
      obtain ⟨first, others⟩ := List.forall_mem_cons.1 down
      unfold Component.ofSegment? at stands
      split at stands
      · cases stands
      · split at stands
        · cases stands
          cases first
        · cases stands
          exact congrArg (Component.normal s :: ·) (ih others)

/-- A path whose components all lead down is plain. -/
theorem isPlain_of_leads {p : Path} (down : ∀ c ∈ components p, c.leads) : IsPlain p := by
  rw [IsPlain, names]
  by_cases absolute : isAbsolute p
  · obtain ⟨r, rfl⟩ : ∃ r, p = Bytes.slash :: r := by
      cases p with
      | nil => cases absolute
      | cons b r => exact ⟨r, by simpa [isAbsolute] using absolute⟩
    rw [components_of_isAbsolute] at down ⊢
    exact .inr (congrArg (Component.root :: ·) (inner_of_leads (List.forall_mem_cons.1 down).2))
  by_cases dotted : (segments p).head? = some Name.current
  · -- The dot at the start would be a component that does not lead down.
    have first : Component.current ∈ components p := by
      obtain rfl | ⟨r, rfl⟩ := eq_of_head?_segments dotted
      · decide
      · rw [components_of_current]
        exact List.mem_cons_self
    cases down _ first
  · rw [components_of_plain (Bool.eq_false_iff.2 absolute) dotted] at down ⊢
    exact .inl (inner_of_leads down)

end Path

/-! ## The number of entries -/

/-- How many entries an entry and everything below it are, if there is one. -/
def Entry.countOf (there : Option Entry) : Nat := there.elim 0 count

/-- An entry that is inserted counts in place of the one whose name it takes. -/
theorem Entries.count_insert (entries : Entries) (name : Bytes) (entry : Entry)
    (ordered : entries.ordered) : (entries.insert name entry).count
      + Entry.countOf (entries.find? name) = entries.count + entry.count := by
  match entries with
  | nil => exact Nat.add_comm entry.count 0
  | cons other old rest =>
    rcases Bytes.before_trichotomy name other with h | rfl | h
    · rw [insert_cons_of_before h, find?_eq_none ordered h]
      exact Nat.add_comm entry.count _
    · rw [insert_cons_self, find?_cons_self, count, count, Entry.countOf, Option.elim_some]
      omega
    · simp only [Entries.ordered, Bool.and_eq_true] at ordered
      have ih := rest.count_insert name entry ordered.2
      rw [insert_cons_of_after h, find?, if_neg (Bytes.ne_of_before h), count, count]
      omega

namespace Entry

/-! ## A file at a place -/

/-- How many of the places above one have no entry. -/
def gaps (there : Option Entry) (names : List Bytes) : Nat :=
  (List.range names.length).countP fun n => (there.bind (at? (names.take n))).isNone

variable {there : Option Entry} {result : Entry} {d : Directory} {file : File} {name : Bytes}
variable {names : List Bytes}

theorem bind_at?_nil (there : Option Entry) : there.bind (at? []) = there := by
  cases there with
  | none => rfl
  | some entry => rfl

theorem inside?_eq_some (inside : inside? there = some d) :
    there = none ∧ d = .empty ∨ there = some (.directory d) := by
  cases there with
  | none => exact .inl ⟨rfl, (Option.some.inj inside).symm⟩
  | some entry =>
    cases entry with
    | file => cases inside
    | directory => exact .inr (congrArg (some ∘ directory) (Option.some.inj inside))

theorem bind_at?_cons (inside : inside? there = some d) (name : Bytes) (rest : List Bytes) :
    there.bind (at? (name :: rest)) = (d.find? name).bind (at? rest) := by
  obtain ⟨rfl, rfl⟩ | rfl := inside?_eq_some inside
  · rfl
  · rfl

theorem gaps_cons (inside : inside? there = some d) (name : Bytes) (rest : List Bytes) :
    gaps there (name :: rest) = (if there.isNone then 1 else 0) + gaps (d.find? name) rest := by
  have below (n : Nat) : (there.bind (at? ((name :: rest).take (n + 1)))).isNone
      = ((d.find? name).bind (at? (rest.take n))).isNone := by
    rw [List.take_succ_cons, bind_at?_cons inside]
  rw [gaps, List.length_cons, List.range_succ_eq_map, List.countP_cons, List.countP_map,
    List.take_zero, bind_at?_nil, Nat.add_comm]
  exact congrArg (_ + ·) (List.countP_congr fun n _ => by rw [Function.comp, below])

/-- What is seen at each place when a file has been put at one: the file there, nothing below, and
elsewhere what was there before, or a new directory where one above the file was missing. -/
theorem shell_put? (put : put? file names there = some result) (place : List Bytes) :
    (result.at? place).map shell
      = if names <+: place then if place = names then some (.file file) else none
        else ((there.bind (at? place)).map shell).or
          (if place <+: names then some (.directory 0) else none) := by
  induction names generalizing there result place with
  | nil =>
    obtain rfl := Option.some.inj put
    rw [if_pos List.nil_prefix]
    cases place with
    | nil => rfl
    | cons other rest => rw [if_neg (List.cons_ne_nil other rest)]; rfl
  | cons name names ih =>
    obtain ⟨d, made, inside, below, rfl⟩ := put?_cons.1 put
    cases place with
    | nil =>
      rw [if_neg (fun front => List.cons_ne_nil name names (List.prefix_nil.1 front)),
        if_pos List.nil_prefix, bind_at?_nil]
      obtain ⟨rfl, rfl⟩ | rfl := inside?_eq_some inside
      · rfl
      · rfl
    | cons other rest =>
      rw [at?, bind_at?_cons inside]
      by_cases is : other = name
      · subst is
        simp only [Directory.find?_insert_self, Option.bind_some, ih below rest,
          List.cons_prefix_cons, true_and, List.cons.injEq]
      · have apart : ¬ other :: rest <+: name :: names :=
          fun front => is (List.cons_prefix_cons.1 front).1
        have apart' : ¬ name :: names <+: other :: rest :=
          fun front => is (List.cons_prefix_cons.1 front).1.symm
        rw [Directory.find?_insert_of_ne d made is, if_neg apart, if_neg apart', Option.or_none]

/-- Above a file that has been put at a place there are directories. -/
theorem above_put? (put : put? file names there = some result) {place : List Bytes}
    (above : place <+: names) (ne : place ≠ names) :
    ∃ sub, result.at? place = some (.directory sub) := by
  induction names generalizing there result place with
  | nil => exact absurd (List.prefix_nil.1 above) ne
  | cons name names ih =>
    obtain ⟨d, made, inside, below, rfl⟩ := put?_cons.1 put
    cases place with
    | nil => exact ⟨_, rfl⟩
    | cons other rest =>
      obtain ⟨rfl, deeper⟩ := List.cons_prefix_cons.1 above
      rw [at?, Directory.find?_insert_self]
      exact ih below deeper fun same => ne (congrArg (other :: ·) same)

/-- The number of entries, when a file has been put at a place. -/
theorem count_put? (ordered : ∀ entry ∈ there, entry.ordered)
    (put : put? file names there = some result) : result.count + countOf (there.bind (at? names))
      = countOf there + gaps there names + 1 := by
  induction names generalizing there result with
  | nil =>
    obtain rfl := Option.some.inj put
    rw [bind_at?_nil]
    exact Nat.add_comm 1 _
  | cons name names ih =>
    obtain ⟨d, made, inside, below, rfl⟩ := put?_cons.1 put
    have own : d.ordered := by
      obtain ⟨rfl, rfl⟩ | rfl := inside?_eq_some inside
      · rfl
      · exact ordered _ rfl
    have counted := ih (fun _ found => by cases d; exact Entries.ordered_of_find? own found) below
    have inserted : (d.insert name made).count + countOf (d.find? name) = d.count + made.count := by
      cases d
      exact Entries.count_insert _ name made own
    rw [bind_at?_cons inside, gaps_cons inside, count]
    obtain ⟨rfl, rfl⟩ | rfl := inside?_eq_some inside
    · have nothing : Directory.empty.count = 0 := rfl
      simp only [countOf, Option.elim_none, Option.isNone_none, if_true] at counted inserted ⊢
      omega
    · simp only [countOf, Option.elim_some, count, Option.isNone_some, Bool.false_eq_true,
        if_false] at counted inserted ⊢
      omega

/-- Of two files that are put at one place only the second is left. -/
theorem put?_put? (put : put? file names there = some result) (other : File) :
    ∃ last, put? other names there = some last ∧ put? other names (some result) = some last := by
  induction names generalizing there result with
  | nil => exact ⟨.file other, rfl, rfl⟩
  | cons name names ih =>
    obtain ⟨d, made, inside, below, rfl⟩ := put?_cons.1 put
    obtain ⟨last, first, second⟩ := ih below
    refine ⟨.directory (d.insert name last), put?_cons.2 ⟨d, last, inside, first, rfl⟩,
      put?_cons.2 ⟨_, last, rfl, ?_, ?_⟩⟩
    · rwa [Directory.find?_insert_self]
    · rw [Directory.insert_insert]

end Entry

namespace Directory

variable {d t : Directory} {path : Path} {file : File} {names : List Bytes}

/-! ## Adding a file -/

theorem leads_of_make {whole : Path} {f : Directory → Directory} {cs : List Path.Component}
    {reached : Directory} (made : (make whole f cs d).2 = .ok reached) : ∀ c ∈ cs, c.leads := by
  induction cs generalizing d with
  | nil => exact nofun
  | cons c rest ih =>
    cases c with
    | root => exact List.forall_mem_cons.2 ⟨rfl, ih made⟩
    | normal name =>
      cases inside : Entry.inside? (d.find? name) with
      | none =>
        rw [make_of_not_inside? inside] at made
        cases made
      | some sub =>
        rw [make_of_inside? inside] at made
        exact List.forall_mem_cons.2 ⟨rfl, ih made⟩
    | current | parent => cases made

/-- A file can only be added under a plain path. -/
theorem isPlain_of_addFile (added : d.addFile path file = (t, .ok ())) : Path.IsPlain path := by
  rw [addFile] at added
  cases found : Path.fileName? path with
  | none =>
    rw [found] at added
    cases added
  | some name =>
    obtain ⟨q, parent, split⟩ := Path.components_of_fileName? found
    rw [found, parent] at added
    have done := congrArg Prod.snd added
    simp only [Option.getD_some] at done
    cases reached : (d.makeDirectories q (·.insert name (.file file))).2 with
    | error e =>
      rw [reached] at done
      cases done
    | ok inner =>
      refine Path.isPlain_of_leads fun c mem => ?_
      rw [split] at mem
      obtain mem | mem := List.mem_append.1 mem
      · exact leads_of_make reached c mem
      · rw [List.mem_singleton.1 mem]
        rfl

/-- Names that lead to something below a directory lead to that directory. -/
theorem descend_of_at? (whole : Path) {front rest : List Bytes} {name : Bytes} {entry : Entry}
    (there : (Entry.directory d).at? (front ++ name :: rest) = some entry) :
    ∃ sub, descend whole (front.map .normal) d = .ok sub
      ∧ (Entry.directory sub).at? (name :: rest) = some entry := by
  induction front generalizing d with
  | nil => exact ⟨d, rfl, there⟩
  | cons first front ih =>
    obtain ⟨next, found, below⟩ := Option.bind_eq_some_iff.1 there
    cases next with
    | file f =>
      cases front with
      | nil => cases below
      | cons => cases below
    | directory inner =>
      obtain ⟨sub, down, entry⟩ := ih below
      exact ⟨sub, descend_normal_eq_ok.2 ⟨inner, found, down⟩, entry⟩

/-- What a directory has become when a file is at a place below it: the file is there and nothing is
below it, everything above it is a directory, and of what was elsewhere everything is kept. Besides,
there are new directories of modification time zero above the file. The entries are counted with the
new ones and without what was replaced. -/
structure Updated (names : List Bytes) (file : File) (d t : Directory) : Prop where
  there : (Entry.directory t).at? names = some (.file file)
  above : ∀ place, place <+: names → place ≠ names →
    ∃ mtime, t.shellAt? place = some (.directory mtime)
  below : ∀ place, names <+: place → place ≠ names → t.shellAt? place = none
  kept : ∀ place shell, ¬ names <+: place → d.shellAt? place = some shell →
    t.shellAt? place = some shell
  new : ∀ place, ¬ names <+: place → d.shellAt? place = none →
    t.shellAt? place = if place <+: names then some (.directory 0) else none
  counted : t.count + Entry.countOf ((Entry.directory d).at? names)
    = d.count + Entry.gaps (some (.directory d)) names + 1

/-- A file that is put at a place updates what is there and nothing else. -/
theorem updated_of_put? (ordered : d.ordered)
    (put : Entry.put? file names (some (.directory d)) = some (.directory t)) :
    d.Updated names file t := by
  have seen (place : List Bytes) : t.shellAt? place
      = if names <+: place then if place = names then some (.file file) else none
        else (d.shellAt? place).or (if place <+: names then some (.directory 0) else none) :=
    Entry.shell_put? put place
  constructor
  · have own := seen names
    rw [if_pos List.prefix_rfl, if_pos rfl, shellAt?, Option.map_eq_some_iff] at own
    obtain ⟨entry, there, is⟩ := own
    cases entry with
    | file f =>
      cases is
      exact there
    | directory => cases is
  · intro place above ne
    obtain ⟨sub, there⟩ := Entry.above_put? put above ne
    exact ⟨sub.mtime, by rw [shellAt?, there]; rfl⟩
  · intro place below ne
    rw [seen, if_pos below, if_neg ne]
  · intro place shell apart had
    rw [seen, if_neg apart, had, Option.some_or]
  · intro place apart missing
    rw [seen, if_neg apart, missing, Option.none_or]
  · have counted := Entry.count_put? (fun entry is => by cases is; exact ordered) put
    simp only [Entry.countOf, Option.bind_some, Option.elim_some, Entry.count] at counted ⊢
    omega

/-- Adding a file under a path that names a place updates that place and nothing else, and the tree
stays in order. The file is found in the directory at the path's parent. Another file that is then
added at the place, under whatever path, makes of the tree what it would have made of it before. -/
theorem updated_of_addFile (ordered : d.ordered) (added : d.addFile path file = (t, .ok ())) :
    Path.IsPlain path ∧ d.Updated (Path.names path) file t ∧ t.ordered
      ∧ (∃ parent name sub, Path.parent? path = some parent ∧ Path.fileName? path = some name
        ∧ t.at? parent = .ok sub ∧ sub.find? name = some (.file file))
      ∧ ∀ path' other, Path.IsPlain path' → Path.names path' = Path.names path →
        ∃ last, d.addFile path' other = (last, .ok ())
          ∧ t.addFile path' other = (last, .ok ()) := by
  have plain := isPlain_of_addFile added
  have put := (addFile_eq_ok plain).1 added
  have updated := updated_of_put? ordered put
  refine ⟨plain, updated, ?_, ?_, ?_⟩
  · have kept : (d.addFile path file).1.ordered := ordered_addFile ordered
    rwa [added] at kept
  · obtain ⟨_, none⟩ | ⟨parent, name, front, found, above, is, split⟩ :=
      Path.fileName?_of_isPlain plain
    · rw [none] at put
      cases put
    · have there := updated.there
      rw [is] at there
      obtain ⟨sub, down, file⟩ := descend_of_at? parent there
      refine ⟨parent, name, sub, above, found, ?_, ?_⟩
      · obtain split | split := split
        · rw [at?, split, down]
        · rw [at?, split, descend, down]
      · obtain ⟨entry, found, is⟩ := Option.bind_eq_some_iff.1 file
        rwa [← Option.some.inj is]
  · intro path' other plain' same
    obtain ⟨last, first, second⟩ := Entry.put?_put? put other
    obtain ⟨made, is⟩ : ∃ made, last = .directory made := by
      cases names : Path.names path with
      | nil =>
        rw [names] at put
        cases put
      | cons name rest =>
        rw [names] at first
        obtain ⟨d, made, _, _, is⟩ := Entry.put?_cons.1 first
        exact ⟨_, is⟩
    subst is
    rw [← same] at first second
    exact ⟨made, (addFile_eq_ok plain').2 first, (addFile_eq_ok plain').2 second⟩

/-- A file is added to the sample tree in a new directory of the one that is there, and then another
one in place of that directory. -/
theorem updated_of_addFile_sample : ∃ f t t', sample.ordered
    ∧ sample.addFile [0x2f, 0x2f, 0x61, 0x2f, 0x2e, 0x2f, 0x63, 0x2f, 0x64] f = (t, .ok ())
    ∧ sample.Updated [[0x61], [0x63], [0x64]] f t ∧ t.count = 4
    ∧ t.addFile [0x61, 0x2f] f = (t', .ok ()) ∧ t.Updated [[0x61]] f t' ∧ t'.count = 2 := by
  have added : sample.addFile [0x2f, 0x2f, 0x61, 0x2f, 0x2e, 0x2f, 0x63, 0x2f, 0x64]
    ⟨1, 0, .inline .empty⟩ = (_, .ok ()) := rfl
  obtain ⟨_, first, ordered, _, _⟩ := updated_of_addFile rfl added
  have replaced : (sample.addFile [0x2f, 0x2f, 0x61, 0x2f, 0x2e, 0x2f, 0x63, 0x2f, 0x64]
    ⟨1, 0, .inline .empty⟩).1.addFile [0x61, 0x2f] ⟨1, 0, .inline .empty⟩ = (_, .ok ()) := rfl
  obtain ⟨_, second, _, _, _⟩ := updated_of_addFile ordered replaced
  exact ⟨_, _, _, rfl, rfl, first, rfl, rfl, second, rfl⟩

end Directory

end FlatImage
