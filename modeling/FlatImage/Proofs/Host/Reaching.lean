import FlatImage.Host.Replace
import FlatImage.Proofs.Host.Following
import FlatImage.Proofs.Locations
import FlatImage.Proofs.NameField

/-!
# Paths below a directory

A path that reaches a directory, joined with names that an image can hold, reaches what the names
lead to from there. There is one limit: a path that is too long is not followed at all, however it
came about.
-/

namespace FlatImage

/-- A name that an image can hold is neither empty nor a dot, and has neither a separator nor a zero
byte. -/
theorem Name.plain_of_check {name : Bytes} (checked : check name = .ok ()) :
    name ≠ [] ∧ name ≠ current ∧ name ≠ parent ∧ Bytes.slash ∉ name ∧ 0 ∉ name
      ∧ name.length ≤ Geometry.nameCapacity := by
  obtain ⟨formed, short⟩ := check_eq_ok_iff.1 checked
  obtain ⟨_, some, here, above, slash, zero⟩ := wellFormed_iff.1 formed
  exact ⟨some, here, above, slash, zero, short⟩

theorem Name.isAbsolute_of_check {name : Bytes} (checked : check name = .ok ()) :
    Path.isAbsolute name = false := by
  rw [Path.isAbsolute, beq_eq_false_iff_ne]
  exact fun starts => (plain_of_check checked).2.2.2.1 (List.mem_of_head? starts)

namespace Host

variable {h : Host} {path : Path} {loc : Location} {name : Bytes}

/-- A path leads to a directory, also when more segments follow. -/
def Reaches (h : Host) (path : Path) (loc : Location) : Prop :=
  path ≠ [] ∧ hasZero path = false ∧ ∃ left, ∀ last rest, rest ≠ [] ∨ last = true →
    h.follow last mostLinks (Path.segments path ++ rest) (h.origin path)
      = h.follow last left rest loc

theorem reaches_of_openDirectory (opened : h.openDirectory path true = .ok loc) :
    h.Reaches path loc := by
  obtain ⟨noZero, mtime, entries, found⟩ := openDirectory_eq_ok_iff.1 opened
  obtain ⟨some, _, led⟩ := resolve_eq_ok_iff.1 (lookup_eq_ok_iff.1 found)
  obtain ⟨left, dir, same⟩ | ⟨_, lost⟩ :=
    h.follow_append mostLinks (Path.segments path) (h.origin path)
  · -- With no segments left over the same way leads to the directory itself.
    have ends := same true [] (.inr rfl)
    rw [List.append_nil, led, follow] at ends
    obtain rfl : loc = dir := by
      cases there : h.at? dir with
      | none =>
        rw [there] at ends
        cases ends
      | some node =>
        rw [there] at ends
        cases ends
        rfl
    exact ⟨some, noZero, left, same⟩
  · exact absurd led (lost _ _ _)

theorem follow_directory (checked : Name.check name = .ok ()) {mtime : Int64} {entries : Nodes}
    (is : h.at? (loc ++ [name]) = some (.directory mtime entries)) (last : Bool) (links : Nat)
    (rest : List Bytes) :
    h.follow last links (name :: rest) loc = h.follow last links rest (loc ++ [name]) := by
  obtain ⟨some, here, above, _, _, short⟩ := Name.plain_of_check checked
  have is : h.entry? loc name = _ := is
  rw [follow, if_neg (not_or.2 ⟨some, here⟩), if_neg above,
    if_neg (Nat.not_lt.2 (Nat.le_trans short (by decide)))]
  simp only [is]

theorem follow_file (checked : Name.check name = .ok ()) {f : File}
    (is : h.at? (loc ++ [name]) = some (.file f)) (last : Bool) (links : Nat) :
    h.follow last links [name] loc = .ok (.found (loc ++ [name]) (.file f)) := by
  obtain ⟨some, here, above, _, _, short⟩ := Name.plain_of_check checked
  have is : h.entry? loc name = _ := is
  rw [follow, if_neg (not_or.2 ⟨some, here⟩), if_neg above,
    if_neg (Nat.not_lt.2 (Nat.le_trans short (by decide)))]
  simp only [is, if_true]

/-- A path of one name opens the directory of that name in the current one. -/
theorem openDirectory_of_name (checked : Name.check name = .ok ()) {mtime : Int64}
    {entries : Nodes} (is : h.at? (h.current ++ [name]) = some (.directory mtime entries)) :
    h.openDirectory name true = .ok (h.current ++ [name]) := by
  obtain ⟨some, _, _, slash, zero, short⟩ := Name.plain_of_check checked
  have origin : h.origin name = h.current := by
    rw [Host.origin, Name.isAbsolute_of_check checked]
    rfl
  have led : h.follow true mostLinks (Path.segments name) (h.origin name)
      = .ok (.found (h.current ++ [name]) (.directory mtime entries)) := by
    rw [origin, Path.segments_of_notMem slash, follow_directory checked is, follow, is]
  exact openDirectory_eq_ok_iff.2 ⟨by simpa [hasZero] using zero, mtime, entries,
    lookup_eq_ok_iff.2 (resolve_eq_ok_iff.2
      ⟨some, Nat.lt_of_le_of_lt short (by decide), led⟩)⟩

namespace Reaches

/-- The segments of a path with a name behind it lead on from the directory that is reached. -/
theorem follow_join (reaches : h.Reaches path loc) (checked : Name.check name = .ok ()) :
    Path.join path name ≠ [] ∧ hasZero (Path.join path name) = false
      ∧ ∃ left, ∀ last rest,
        h.follow last mostLinks (Path.segments (Path.join path name) ++ rest)
            (h.origin (Path.join path name)) = h.follow last left (name :: rest) loc := by
  obtain ⟨some, noZero, left, same⟩ := reaches
  obtain ⟨someName, _, _, slash, zero, _⟩ := Name.plain_of_check checked
  have relative := Name.isAbsolute_of_check checked
  have origin : h.origin (Path.join path name) = h.origin path := by
    rw [Host.origin, Host.origin, Path.isAbsolute_join some relative]
  refine ⟨?_, ?_, left, fun last rest => ?_⟩
  · obtain joined | joined := Path.join_eq path relative <;> simp [joined, some]
  · have : hasZero name = false := by simpa [hasZero] using zero
    rw [hasZero_join path relative, noZero, this, Bool.or_false]
  · rw [origin, follow_join_append some relative, Path.segments_of_notMem slash, List.append_assoc]
    exact same last (name :: rest) (.inl (List.cons_ne_nil name rest))

theorem join (reaches : h.Reaches path loc) (checked : Name.check name = .ok ()) {mtime : Int64}
    {entries : Nodes} (is : h.at? (loc ++ [name]) = some (.directory mtime entries)) :
    h.Reaches (Path.join path name) (loc ++ [name]) := by
  obtain ⟨some, noZero, left, same⟩ := reaches.follow_join checked
  exact ⟨some, noZero, left, fun last rest _ =>
    (same last rest).trans (follow_directory checked is last left rest)⟩

/-- A path that is joined with the name of a file is read, if it is not too long. -/
theorem read_join (reaches : h.Reaches path loc) (checked : Name.check name = .ok ()) {f : File}
    (is : h.at? (loc ++ [name]) = some (.file f))
    (short : (Path.join path name).length < tooLongPath) :
    h.read (Path.join path name) = .ok f.content := by
  obtain ⟨some, noZero, left, same⟩ := reaches.follow_join checked
  have led := same true []
  rw [List.append_nil, follow_file checked is] at led
  have found : h.lookup (Path.join path name) true = .ok (loc ++ [name], .file f) :=
    lookup_eq_ok_iff.2 (resolve_eq_ok_iff.2 ⟨some, short, led⟩)
  simp only [read, noZero, found, Bool.false_eq_true, if_false]

/-- A path that is joined with names which lead to a file is read, if it is not too long. -/
theorem read_joinAll {names : List Bytes} (reaches : h.Reaches path loc)
    (checked : ∀ name ∈ names, Name.check name = .ok ()) {f : File}
    (below : names ≠ []) (is : h.at? (loc ++ names) = some (.file f))
    (short : (path.joinAll names).length < tooLongPath) :
    h.read (path.joinAll names) = .ok f.content := by
  induction names generalizing path loc with
  | nil => exact absurd rfl below
  | cons name rest ih =>
    obtain ⟨first, others⟩ := List.forall_mem_cons.1 checked
    cases rest with
    | nil => exact reaches.read_join first is short
    | cons next rest =>
      have split : loc ++ name :: next :: rest = loc ++ [name] ++ next :: rest := by simp
      rw [split] at is
      have below : h.at? (loc ++ [name] ++ next :: rest) ≠ none := by
        rw [is]
        exact Option.some_ne_none _
      obtain ⟨mtime, entries, there⟩ := isDirectory_iff.1 (isDirectory_of_below below)
      exact ih (reaches.join first there) others (List.cons_ne_nil next rest) is short

end Reaches

/-- No bytes are found under a path that is too long. -/
theorem not_sources_of_long (long : tooLongPath ≤ path.length) (source : Source) :
    h.sources path ≠ .ok source := by
  intro found
  cases opened : h.read path with
  | error e =>
    rw [sources, opened] at found
    cases found
  | ok content =>
    unfold read at opened
    split at opened
    · cases opened
    · split at opened
      · cases opened
      · next led =>
        exact absurd (resolve_eq_ok_iff.1 (lookup_eq_ok_iff.1 led)).2.1 (Nat.not_lt.2 long)
      · cases opened
      · cases opened

/-! ## More entries -/

/-- The host `k` has what `h` has, but for modification times of directories, and can have more. -/
structure Extends (h k : Host) : Prop where
  current : k.current = h.current
  view : ∀ loc, k.view loc = h.view loc
    ∨ h.IsDirectory loc ∧ k.IsDirectory loc
    ∨ h.view loc = none

namespace Extends

variable {k : Host} {last : Bool} {links : Nat} {pending : List Bytes} {here dir : Location}
variable {mtime : Int64} {entries : Nodes}

theorem directory (e : h.Extends k) (is : h.at? loc = some (.directory mtime entries)) :
    ∃ mtime' entries', k.at? loc = some (.directory mtime' entries') := by
  have own : h.IsDirectory loc := isDirectory_iff.2 ⟨mtime, entries, is⟩
  obtain same | ⟨_, still⟩ | none := e.view loc
  · obtain ⟨mtime, shown⟩ := own
    exact isDirectory_iff.1 ⟨mtime, same.trans shown⟩
  · exact isDirectory_iff.1 still
  · cases (view_eq_none_iff.1 none).symm.trans is

theorem link (e : h.Extends k) {target : Path} (is : h.at? loc = some (.link target)) :
    k.at? loc = some (.link target) := by
  have shown : h.view loc = some (.link target) := by rw [Host.view, is]; rfl
  obtain same | ⟨⟨_, own⟩, _⟩ | none := e.view loc
  · obtain ⟨node, there, shell⟩ := Option.map_eq_some_iff.1 (same.trans shown)
    cases node with
    | link => exact there.trans (congrArg some shell)
    | _ => cases shell
  · cases shown.symm.trans own
  · cases shown.symm.trans none

/-- Segments that lead to a directory still lead to it. -/
theorem follow (e : h.Extends k)
    (found : h.follow last links pending here = .ok (.found dir (.directory mtime entries))) :
    ∃ mtime' entries',
      k.follow last links pending here = .ok (.found dir (.directory mtime' entries')) := by
  fun_induction Host.follow h last links pending here with
  | case1 links here node there =>
    cases found
    obtain ⟨mtime', entries', is⟩ := e.directory there
    exact ⟨mtime', entries', by rw [Host.follow, is]⟩
  | case3 links here segment others nothing ih =>
    rw [Host.follow, if_pos nothing]
    exact ih found
  | case4 links here others something ih =>
    rw [Host.follow, if_neg something, if_pos rfl]
    exact ih found
  | case8 links here segment others something down short _ _ there ih =>
    obtain ⟨mtime', entries', is⟩ := e.directory there
    have is : k.entry? here segment = some (.directory mtime' entries') := is
    rw [Host.follow, if_neg something, if_neg down, if_neg short]
    simp only [is]
    exact ih found
  | case9 => cases found
  | case11 here segment others something down short target there followed links start ih =>
    have is : k.entry? here segment = some (.link target) := e.link there
    rw [Host.follow, if_neg something, if_neg down, if_neg short]
    simp only [is, if_neg followed]
    exact ih found
  | case12 _ _ _ _ _ _ node other =>
    cases found
    exact absurd rfl (other _ _)
  | _ => cases found

theorem openDirectory (e : h.Extends k) (opened : h.openDirectory path last = .ok dir) :
    k.openDirectory path last = .ok dir := by
  obtain ⟨noZero, mtime, entries, found⟩ := openDirectory_eq_ok_iff.1 opened
  obtain ⟨some, short, led⟩ := resolve_eq_ok_iff.1 (lookup_eq_ok_iff.1 found)
  have same : k.origin path = h.origin path := by rw [origin, origin, e.current]
  obtain ⟨mtime', entries', led⟩ := e.follow led
  exact openDirectory_eq_ok_iff.2 ⟨noZero, mtime', entries',
    lookup_eq_ok_iff.2 (resolve_eq_ok_iff.2 ⟨some, short, same ▸ led⟩)⟩

end Extends

end Host

end FlatImage
