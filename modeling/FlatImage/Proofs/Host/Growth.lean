import FlatImage.Host.Replace
import FlatImage.Proofs.Host.Following

/-!
# New files that are empty

Making empty files changes little of what paths lead to: whatever else is found afterwards was found
before, at the same place.
-/

namespace FlatImage.Host

/-- The host `k` is `h` but for new empty files and for modification times of directories. -/
structure Grown (h k : Host) : Prop where
  current : k.current = h.current
  view : ∀ loc, k.view loc = h.view loc
    ∨ h.IsDirectory loc ∧ k.IsDirectory loc
    ∨ h.view loc = none ∧ ∃ f : File, f.content.size = 0 ∧ k.view loc = some (.file f)

/-- A node that is no empty file. -/
def Node.Filled (node : Node) : Prop := ∀ f, node = .file f → f.content.size ≠ 0

namespace Grown

variable {h k l : Host} {last : Bool} {links : Nat} {pending : List Bytes}
variable {here dir loc : Location} {node : Node} {name : Bytes} {path : Path}

theorem refl (h : Host) : h.Grown h := ⟨rfl, fun _ => .inl rfl⟩

theorem trans (first : h.Grown k) (second : k.Grown l) : h.Grown l where
  current := second.current.trans first.current
  view loc := by
    obtain same | ⟨was, mtime, is⟩ | ⟨none, f, empty, new⟩ := first.view loc
    · have second := second.view loc
      rwa [same, IsDirectory, same] at second
    · obtain same' | ⟨_, is'⟩ | ⟨none, _⟩ := second.view loc
      · exact .inr (.inl ⟨was, mtime, same'.trans is⟩)
      · exact .inr (.inl ⟨was, is'⟩)
      · cases none.symm.trans is
    · obtain same' | ⟨⟨_, was⟩, _⟩ | ⟨none', _⟩ := second.view loc
      · exact .inr (.inr ⟨none, f, empty, same'.trans new⟩)
      · cases was.symm.trans new
      · cases none'.symm.trans new

/-- A new entry that is an empty file. -/
theorem add {f : File} (new : h.entry? dir name = none) (is : h.IsDirectory dir)
    (empty : f.content.size = 0) : h.Grown (h.add dir name (.file f)) where
  current := rfl
  view loc := by
    obtain ⟨mtime, entries, found⟩ := isDirectory_iff.1 is
    by_cases own : loc = dir
    · subst own
      exact .inr (.inl ⟨is, _, view_edit_self _ found⟩)
    by_cases below : dir ++ [name] <+: loc
    · obtain ⟨rest, rfl⟩ := below
      have made :
          (h.add dir name (.file f)).at? (dir ++ [name] ++ rest) = (Node.file f).at? rest := by
        rw [List.append_assoc]
        exact at?_add found name _ rest
      have was : h.view (dir ++ [name] ++ rest) = none :=
        view_eq_none_iff.2 (at?_append_of_none new rest)
      cases rest with
      | nil => exact .inr (.inr ⟨was, f, empty, by rw [Host.view, made]; rfl⟩)
      | cons first rest => exact .inl (by rw [was, Host.view, made]; rfl)
    · exact .inl (view_add_of_ne found own below)

/-- What stands somewhere and is no empty file was there before. -/
theorem at?_of_filled (g : h.Grown k) (found : k.at? loc = some node) (filled : node.Filled) :
    h.at? loc = some node ∨ ∃ mtime entries old oldEntries,
      node = .directory mtime entries ∧ h.at? loc = some (.directory old oldEntries) := by
  have seen : k.view loc = some node.shell := by rw [Host.view, found]; rfl
  obtain same | ⟨was, is⟩ | ⟨_, f, empty, new⟩ := g.view loc
  · obtain ⟨old, there, shell⟩ := Option.map_eq_some_iff.1 (same.symm.trans seen)
    cases node with
    | directory mtime entries =>
      cases old with
      | directory old oldEntries => exact .inr ⟨_, _, _, _, rfl, there⟩
      | _ => cases shell
    | _ =>
      cases old with
      | directory => cases shell
      | _ => exact .inl (there.trans (congrArg some shell))
  · obtain ⟨old, oldEntries, there⟩ := isDirectory_iff.1 was
    obtain ⟨mtime, entries, is⟩ := isDirectory_iff.1 is
    obtain rfl := Option.some.inj (found.symm.trans is)
    exact .inr ⟨_, _, _, _, rfl, there⟩
  · cases node with
    | file f' =>
      obtain rfl : f' = f := by
        have same := seen.symm.trans new
        cases same
        rfl
      exact absurd empty (filled f' rfl)
    | _ => cases seen.symm.trans new

theorem directory_of (g : h.Grown k) {mtime : Int64} {entries : Nodes}
    (found : k.at? loc = some (.directory mtime entries)) :
    ∃ old oldEntries, h.at? loc = some (.directory old oldEntries) := by
  obtain was | ⟨_, _, old, oldEntries, _, was⟩ := g.at?_of_filled found nofun
  · exact ⟨mtime, entries, was⟩
  · exact ⟨old, oldEntries, was⟩

theorem leaf_of (g : h.Grown k) (found : k.at? loc = some node) (filled : node.Filled)
    (leaf : ∀ mtime entries, node ≠ .directory mtime entries) : h.at? loc = some node := by
  obtain was | ⟨_, _, _, _, is, _⟩ := g.at?_of_filled found filled
  · exact was
  · exact absurd is (leaf _ _)

theorem link_of (g : h.Grown k) {target : Path} (found : k.at? loc = some (.link target)) :
    h.at? loc = some (.link target) :=
  g.leaf_of found (fun _ is => Node.noConfusion is) fun _ _ is => Node.noConfusion is

/-- What segments lead to is what they led to before, if it is no empty file. -/
theorem follow_of_filled (g : h.Grown k) (filled : node.Filled)
    (found : k.follow last links pending here = .ok (.found loc node)) :
    ∃ old, h.follow last links pending here = .ok (.found loc old) := by
  fun_induction follow k last links pending here with
  | case1 links here there is =>
    cases found
    obtain was | ⟨_, _, _, _, _, was⟩ := g.at?_of_filled is filled
    · exact ⟨_, by rw [follow, was]⟩
    · exact ⟨_, by rw [follow, was]⟩
  | case3 links here segment others nothing ih =>
    rw [follow, if_pos nothing]
    exact ih found
  | case4 links here others something ih =>
    rw [follow, if_neg something, if_pos rfl]
    exact ih found
  | case8 links here segment others something down short mtime entries there ih =>
    obtain ⟨old, oldEntries, was⟩ := g.directory_of there
    have was : h.entry? here segment = some (.directory old oldEntries) := was
    rw [follow, if_neg something, if_neg down, if_neg short]
    simp only [was]
    exact ih found
  | case9 links here segment others something down short target there ends =>
    cases found
    have was : h.entry? here segment = some (.link target) := g.link_of there
    refine ⟨.link target, ?_⟩
    rw [follow, if_neg something, if_neg down, if_neg short]
    simp only [was, if_pos ends]
  | case11 here segment others something down short target there followed links start ih =>
    have was : h.entry? here segment = some (.link target) := g.link_of there
    rw [follow, if_neg something, if_neg down, if_neg short]
    simp only [was, if_neg followed]
    exact ih found
  | case12 links here segment something down short node other noLink there =>
    cases found
    have was : h.entry? here segment = some node := g.leaf_of there filled other
    refine ⟨node, ?_⟩
    rw [follow, if_neg something, if_neg down, if_neg short]
    simp only [was, if_true]
  | _ => cases found

/-- What a path leads to is where it led to before, if it is no empty file. -/
theorem lookup_of_filled (g : h.Grown k) (filled : node.Filled)
    (found : k.lookup path last = .ok (loc, node)) :
    ∃ old, h.lookup path last = .ok (loc, old) ∧ h.at? loc = some old := by
  obtain ⟨some, short, found⟩ := resolve_eq_ok_iff.1 (lookup_eq_ok_iff.1 found)
  have same : k.origin path = h.origin path := by rw [origin, origin, g.current]
  rw [same] at found
  obtain ⟨old, was⟩ := g.follow_of_filled filled found
  exact ⟨old, lookup_eq_ok_iff.2 (resolve_eq_ok_iff.2 ⟨some, short, was⟩), at?_of_follow was⟩

theorem openDirectory_of (g : h.Grown k) (opened : k.openDirectory path last = .ok dir) :
    h.openDirectory path last = .ok dir := by
  obtain ⟨noZero, mtime, entries, found⟩ := openDirectory_eq_ok_iff.1 opened
  have filled : (Node.directory mtime entries).Filled := nofun
  obtain ⟨_, was, there⟩ := g.lookup_of_filled filled found
  obtain ⟨oldMtime, oldEntries, there'⟩ := g.directory_of (at?_of_lookup found)
  obtain rfl := Option.some.inj (there.symm.trans there')
  exact openDirectory_eq_ok_iff.2 ⟨noZero, oldMtime, oldEntries, was⟩

theorem read_of (g : h.Grown k) {content : Blob} (found : k.read path = .ok content)
    (filled : content.size ≠ 0) : h.read path = .ok content := by
  unfold read at found ⊢
  split at found
  · cases found
  · next noZero =>
    split at found
    · cases found
    · next loc f led =>
      obtain rfl := Except.ok.inj found
      have filled : (Node.file f).Filled := by
        intro _ same
        cases same
        exact filled
      obtain ⟨_, was, there⟩ := g.lookup_of_filled filled led
      obtain rfl := Option.some.inj (there.symm.trans (g.leaf_of (at?_of_lookup led) filled nofun))
      rw [if_neg noZero, was]
    · cases found
    · cases found

/-- Files that are not empty have the bytes that they had. -/
theorem sources_of (g : h.Grown k) {source : Source} (found : k.sources path = .ok source)
    (filled : source.content.size ≠ 0) : h.sources path = .ok source := by
  unfold sources at found ⊢
  cases read : k.read path with
  | error e =>
    rw [read] at found
    cases found
  | ok content =>
    rw [read] at found
    cases found
    rw [g.read_of read filled]
    rfl

end Grown

end FlatImage.Host
