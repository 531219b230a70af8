import FlatImage.Host

/-!
# What stands where on a host

A host is a tree, and a change deep inside it changes every node above. Seen location by location,
without what is below, it changes one place: `Host.view` is that look at a host, and every call that
changes a host comes with what it does to the view. Statements about what a run leaves alone are
statements about views.
-/

namespace FlatImage.Host

namespace Nodes

variable {name : Bytes} {f g : Node → Node}

/-- Changes of the node of one name, one after the other, are one change. -/
theorem modify_modify (name : Bytes) (f g : Node → Node) (entries : Nodes) :
    (entries.modify name g).modify name f = entries.modify name (f ∘ g) := by
  match entries with
  | nil => rfl
  | cons other node rest =>
    by_cases is : other = name
    · simp only [modify, if_pos is, Function.comp_apply]
    · simp only [modify, if_neg is]
      rw [modify_modify name f g rest]

theorem modify_congr (same : ∀ node, f node = g node) (entries : Nodes) :
    entries.modify name f = entries.modify name g := by
  rw [funext same]

theorem modify_of_fixed (entries : Nodes)
    (fixed : ∀ node, entries.find? name = some node → f node = node) :
    entries.modify name f = entries := by
  match entries with
  | nil => rfl
  | cons other node rest =>
    by_cases is : other = name
    · have same : f node = node := fixed node (by rw [find?, if_pos is])
      rw [modify, if_pos is, same]
    · have others : rest.modify name f = rest :=
        modify_of_fixed rest fun node found => fixed node (by rw [find?, if_neg is, found])
      rw [modify, if_neg is, others]

end Nodes

namespace Node

/-- A node without what is below it. -/
def shell : Node → Node
  | directory mtime _ => directory mtime .nil
  | node => node

/-- To follow names is to follow the first of them, and then the others from there. -/
theorem at?_append (loc rest : Location) (node : Node) :
    node.at? (loc ++ rest) = (node.at? loc).bind (at? rest) := by
  induction loc generalizing node with
  | nil => rfl
  | cons name loc ih =>
    cases node with
    | directory mtime entries =>
      simp only [List.cons_append, at?]
      cases entries.find? name with
      | none => rfl
      | some node => exact ih node
    | _ => rfl

theorem update_append (f : Node → Node) (loc rest : Location) (node : Node) :
    update f (loc ++ rest) node = update (update f rest) loc node := by
  induction loc generalizing node with
  | nil => rfl
  | cons name loc ih =>
    cases node with
    | directory mtime entries =>
      simp only [List.cons_append, update]
      rw [Nodes.modify_congr ih entries]
    | _ => rfl

theorem update_update (f g : Node → Node) (loc : Location) (node : Node) :
    update f loc (update g loc node) = update (f ∘ g) loc node := by
  induction loc generalizing node with
  | nil => rfl
  | cons name loc ih =>
    cases node with
    | directory mtime entries =>
      simp only [update, Nodes.modify_modify]
      exact congrArg (directory mtime) (Nodes.modify_congr ih entries)
    | _ => rfl

theorem update_of_fixed {f : Node → Node} (loc : Location) (node : Node)
    (fixed : ∀ there, node.at? loc = some there → f there = there) : update f loc node = node := by
  induction loc generalizing node with
  | nil => exact fixed node rfl
  | cons name loc ih =>
    cases node with
    | directory mtime entries =>
      rw [update, Nodes.modify_of_fixed entries]
      intro node found
      exact ih node fun there at_loc => fixed there (by rw [at?, found]; exact at_loc)
    | _ => rfl

/-- A change below a node does not show in the node itself. -/
theorem shell_update_cons (f : Node → Node) (name : Bytes) (rest : Location) (node : Node) :
    (update f (name :: rest) node).shell = node.shell := by
  cases node <;> rfl

theorem at?_setMtime (mtime : Int64) (name : Bytes) (rest : Location) (node : Node) :
    (node.setMtime mtime).at? (name :: rest) = node.at? (name :: rest) := by
  cases node <;> rfl

theorem shell_setMtime (mtime : Int64) (node : Node) :
    (node.setMtime mtime).shell = node.shell.setMtime mtime := by
  cases node <;> rfl

end Node

/-! ## Views -/

/-- What stands at a location, without what is below it. -/
def view (h : Host) (loc : Location) : Option Node := (h.at? loc).map Node.shell

def IsDirectory (h : Host) (loc : Location) : Prop :=
  ∃ mtime, h.view loc = some (.directory mtime .nil)

variable {h : Host} {dir loc other rest : Location} {name : Bytes} {node : Node}

theorem at?_append (h : Host) (loc rest : Location) :
    h.at? (loc ++ rest) = (h.at? loc).bind (Node.at? rest) := Node.at?_append loc rest h.root

theorem isDirectory_iff :
    h.IsDirectory loc ↔ ∃ mtime entries, h.at? loc = some (.directory mtime entries) := by
  unfold IsDirectory view
  constructor
  · rintro ⟨mtime, is⟩
    obtain ⟨node, found, shell⟩ := Option.map_eq_some_iff.1 is
    cases node with
    | directory mtime entries => exact ⟨mtime, entries, found⟩
    | _ => cases shell
  · rintro ⟨mtime, entries, found⟩
    exact ⟨mtime, by rw [found]; rfl⟩

theorem view_eq_none_iff : h.view loc = none ↔ h.at? loc = none := Option.map_eq_none_iff

theorem at?_append_of_none (none : h.at? loc = none) (rest : Location) :
    h.at? (loc ++ rest) = Option.none := by
  rw [at?_append, none]
  rfl

/-- Only directories have something below them. -/
theorem isDirectory_of_below (found : h.at? (loc ++ name :: rest) ≠ none) :
    h.IsDirectory loc := by
  rw [at?_append] at found
  cases at_loc : h.at? loc with
  | none =>
    rw [at_loc] at found
    exact absurd rfl found
  | some node =>
    rw [at_loc] at found
    cases node with
    | directory mtime entries => exact isDirectory_iff.2 ⟨mtime, entries, at_loc⟩
    | _ => exact absurd rfl found

/-! ## Changes of one place -/

/-- A change shows only at its place and below. -/
theorem view_update_of_not_prefix (f : Node → Node) (beside : ¬ loc <+: other) :
    (h.update loc f).view other = h.view other := by
  by_cases above : other <+: loc
  · obtain ⟨rest, rfl⟩ := above
    cases rest with
    | nil => exact absurd (by simp) beside
    | cons name rest =>
      have inner : (h.update (other ++ name :: rest) f).at? other
          = (h.at? other).map (Node.update f (name :: rest)) := by
        unfold at? update
        rw [Node.update_append, Node.at?_update_self]
      rw [view, view, inner, Option.map_map]
      congr 1
      exact funext (Node.shell_update_cons f name rest)
  · rw [view, view, at?_update_of_not_prefix h f beside above]

/-- At its place and below, a change shows what it makes of the node there. -/
theorem at?_update_append (f : Node → Node) (loc rest : Location) :
    (h.update loc f).at? (loc ++ rest) = ((h.at? loc).map f).bind (Node.at? rest) := by
  rw [at?_append, at?_update_self]

theorem update_append (h : Host) (f : Node → Node) (loc rest : Location) :
    h.update (loc ++ rest) f = h.update loc (Node.update f rest) := by
  unfold update
  rw [Node.update_append]

theorem update_update (h : Host) (f g : Node → Node) (loc : Location) :
    (h.update loc g).update loc f = h.update loc (f ∘ g) := by
  unfold update
  rw [Node.update_update]

/-! ## Changes of entries -/

/-- A directory's entries changed now. -/
def edit (h : Host) (dir : Location) (f : Nodes → Nodes) : Host :=
  h.update dir (Node.changeEntries h.now f)

theorem add_eq_edit (h : Host) (dir : Location) (name : Bytes) (node : Node) :
    h.add dir name node = h.edit dir (.cons name node) := rfl

theorem put_eq_edit (h : Host) (dir : Location) (name : Bytes) (node : Node) :
    h.put dir name node = h.edit dir (·.set name node) := rfl

theorem remove_eq_edit (h : Host) (dir : Location) (name : Bytes) :
    h.remove dir name = h.edit dir (·.erase name) := rfl

theorem edit_of_not_isDirectory (f : Nodes → Nodes) (no : ¬ h.IsDirectory dir) :
    h.edit dir f = h := by
  refine congrArg (Host.mk · h.current h.now) (Node.update_of_fixed dir h.root ?_)
  intro there found
  cases there with
  | directory mtime entries => exact absurd (isDirectory_iff.2 ⟨mtime, entries, found⟩) no
  | _ => rfl

theorem edit_edit (h : Host) (dir : Location) (f g : Nodes → Nodes) :
    (h.edit dir g).edit dir f = h.edit dir (f ∘ g) := by
  have once : Node.changeEntries h.now f ∘ Node.changeEntries h.now g
      = Node.changeEntries h.now (f ∘ g) := by
    funext node
    cases node <;> rfl
  unfold edit
  rw [now_update, update_update, once]

theorem at?_edit_self {mtime : Int64} {entries : Nodes} (f : Nodes → Nodes)
    (is : h.at? dir = some (.directory mtime entries)) :
    (h.edit dir f).at? dir = some (.directory h.now (f entries)) := by
  have changed := at?_update_self h dir (Node.changeEntries h.now f)
  rwa [is] at changed

theorem entry?_eq {mtime : Int64} {entries : Nodes}
    (is : h.at? dir = some (.directory mtime entries)) (name : Bytes) :
    h.entry? dir name = entries.find? name := by
  show h.at? (dir ++ [name]) = _
  rw [at?_append, is]
  simp only [Option.bind_some, Node.at?]
  cases entries.find? name <;> rfl

/-- An entry that keeps its node keeps all that is below it, and so do places outside the
directory. -/
theorem view_edit_of_ne {mtime : Int64} {entries : Nodes} {f : Nodes → Nodes}
    (is : h.at? dir = some (.directory mtime entries)) (ne : other ≠ dir)
    (same : ∀ name rest, other = dir ++ name :: rest →
      (f entries).find? name = entries.find? name) :
    (h.edit dir f).view other = h.view other := by
  by_cases inside : dir <+: other
  · obtain ⟨below, rfl⟩ := inside
    cases below with
    | nil => exact absurd (List.append_nil _) ne
    | cons name rest =>
      rw [view, view, at?_append, at?_append, at?_edit_self f is, is]
      simp only [Option.bind_some, Node.at?]
      rw [same name rest rfl]
  · exact view_update_of_not_prefix _ inside

theorem view_edit_self {mtime : Int64} {entries : Nodes} (f : Nodes → Nodes)
    (is : h.at? dir = some (.directory mtime entries)) :
    (h.edit dir f).view dir = some (.directory h.now .nil) := by
  rw [view, at?_edit_self f is]
  rfl

/-! ## New entries -/

section

variable {mtime : Int64} {entries : Nodes}

/-- A new entry shows where it is, and below. -/
theorem at?_add (is : h.at? dir = some (.directory mtime entries)) (name : Bytes) (node : Node)
    (rest : Location) : (h.add dir name node).at? (dir ++ name :: rest) = node.at? rest := by
  rw [at?_append, add_eq_edit, at?_edit_self _ is]
  simp only [Option.bind_some, Node.at?, Nodes.find?, if_pos]

theorem view_add_self (is : h.IsDirectory dir) (name : Bytes) (node : Node) :
    (h.add dir name node).view (dir ++ [name]) = some node.shell := by
  obtain ⟨mtime, entries, found⟩ := isDirectory_iff.1 is
  rw [view, at?_add found]
  rfl

/-- A new entry shows nowhere else but in the modification time of its directory. -/
theorem view_add_of_ne (is : h.at? dir = some (.directory mtime entries)) (ne : other ≠ dir)
    (beside : ¬ dir ++ [name] <+: other) : (h.add dir name node).view other = h.view other := by
  refine view_edit_of_ne is ne ?_
  rintro first rest rfl
  have ne : name ≠ first := by
    rintro rfl
    exact beside ⟨rest, by simp⟩
  simp only [Nodes.find?, if_neg ne]

end

theorem update_add (h : Host) (dir : Location) (name : Bytes) (node : Node) (f : Node → Node) :
    (h.add dir name node).update (dir ++ [name]) f = h.add dir name (f node) := by
  have once : Node.update f [name] ∘ Node.changeEntries h.now (.cons name node)
      = Node.changeEntries h.now (.cons name (f node)) := by
    funext into
    cases into with
    | directory mtime entries =>
      simp only [Function.comp_apply, Node.changeEntries, Node.update, Nodes.modify, if_true]
    | _ => rfl
  rw [update_append, add, update_update, once]
  rfl

/-! ## Modification times -/

theorem view_stamp_self (h : Host) (loc : Location) (mtime : Int64) :
    (h.stamp loc mtime).view loc = (h.view loc).map (Node.setMtime mtime) := by
  rw [view, view, stamp, at?_update_self, Option.map_map, Option.map_map]
  congr 1
  exact funext (Node.shell_setMtime mtime)

theorem view_stamp_of_ne (mtime : Int64) (ne : other ≠ loc) :
    (h.stamp loc mtime).view other = h.view other := by
  by_cases inside : loc <+: other
  · obtain ⟨rest, rfl⟩ := inside
    cases rest with
    | nil => exact absurd (List.append_nil _) ne
    | cons name rest =>
      rw [view, view, stamp, at?_update_append, at?_append]
      cases h.at? loc with
      | none => rfl
      | some node => simp only [Option.map_some, Option.bind_some, Node.at?_setMtime]
  · exact view_update_of_not_prefix _ inside

end FlatImage.Host
