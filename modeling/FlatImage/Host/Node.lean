import FlatImage.Blob
import FlatImage.Path

/-!
# What is in a file system

A file system is a tree of nodes. As with source trees, nodes and lists of named nodes are mutually
inductive. A directory keeps its entries in the order in which it lists them, the latest first,
which need not be the order of their names; no two entries have the same name.

A `Location` is the list of names that lead from the root to a node without passing through links.
Nothing here is ever moved, so a location names the same node for as long as the node exists, as a
descriptor of an open directory does.
-/

namespace FlatImage

namespace Host

/-- A regular file. Modification times are seconds since the epoch. -/
structure File where
  content : Blob
  mtime : Int64
  /-- Someone else holds the lock of the file. -/
  locked : Bool := false

/-- Nodes without content of their own. -/
inductive Special where
  | pipe
  | socket
  deriving DecidableEq

mutual

inductive Node where
  | file (file : File)
  | directory (mtime : Int64) (entries : Nodes)
  | link (target : Path)
  | special (kind : Special) (mtime : Int64)

/-- Named nodes, in the order of the listing. -/
inductive Nodes where
  | nil
  | cons (name : Bytes) (node : Node) (rest : Nodes)

end

/-- The names that lead from the root to a node. -/
abbrev Location := List Bytes

namespace Nodes

def toList : Nodes → List (Bytes × Node)
  | nil => []
  | cons name node rest => (name, node) :: rest.toList

def find? (name : Bytes) : Nodes → Option Node
  | nil => none
  | cons other node rest => if other = name then some node else rest.find? name

/-- Gives a name a node, in place of the one that it has or else at the end. -/
def set (name : Bytes) (node : Node) : Nodes → Nodes
  | nil => cons name node nil
  | cons other old rest =>
    if other = name then cons other node rest else cons other old (rest.set name node)

def erase (name : Bytes) : Nodes → Nodes
  | nil => nil
  | cons other node rest => if other = name then rest else cons other node (rest.erase name)

def modify (name : Bytes) (f : Node → Node) : Nodes → Nodes
  | nil => nil
  | cons other node rest =>
    if other = name then cons other (f node) rest else cons other node (rest.modify name f)

@[simp] theorem find?_set_self (name : Bytes) (node : Node) (entries : Nodes) :
    (entries.set name node).find? name = some node := by
  match entries with
  | nil => simp [set, find?]
  | cons other old rest =>
    unfold set
    split
    · next h => simp [find?, h]
    · next h => simp [find?, h, find?_set_self name node rest]

theorem find?_set_of_ne {name other : Bytes} (node : Node) (entries : Nodes)
    (h : other ≠ name) : (entries.set name node).find? other = entries.find? other := by
  match entries with
  | nil => simp [set, find?, Ne.symm h]
  | cons first old rest =>
    unfold set
    split
    · next e => subst e; simp [find?, Ne.symm h]
    · simp [find?, find?_set_of_ne node rest h]

theorem find?_erase_of_ne {name other : Bytes} (entries : Nodes) (h : other ≠ name) :
    (entries.erase name).find? other = entries.find? other := by
  match entries with
  | nil => rfl
  | cons first old rest =>
    unfold erase
    split
    · next e => subst e; simp [find?, Ne.symm h]
    · simp [find?, find?_erase_of_ne rest h]

theorem find?_modify_self (name : Bytes) (f : Node → Node) (entries : Nodes) :
    (entries.modify name f).find? name = (entries.find? name).map f := by
  match entries with
  | nil => rfl
  | cons other old rest =>
    unfold modify
    split
    · next h => simp [find?, h]
    · next h => simp [find?, h, find?_modify_self name f rest]

theorem find?_modify_of_ne {name other : Bytes} (f : Node → Node) (entries : Nodes)
    (h : other ≠ name) : (entries.modify name f).find? other = entries.find? other := by
  match entries with
  | nil => rfl
  | cons first old rest =>
    unfold modify
    split
    · next e => subst e; simp [find?, Ne.symm h]
    · simp [find?, find?_modify_of_ne f rest h]

end Nodes

namespace Node

def at? : Location → Node → Option Node
  | [], node => some node
  | name :: rest, .directory _ entries =>
    match entries.find? name with
    | some node => at? rest node
    | none => none
  | _ :: _, _ => none

def update (f : Node → Node) : Location → Node → Node
  | [], node => f node
  | name :: rest, .directory mtime entries =>
    .directory mtime (entries.modify name (update f rest))
  | _ :: _, node => node

/-- When a node was modified last. Nobody asks it of a link. -/
def mtime? : Node → Option Int64
  | file f => some f.mtime
  | directory mtime _ => some mtime
  | link _ => none
  | special _ mtime => some mtime

def setMtime (mtime : Int64) : Node → Node
  | file f => file { f with mtime := mtime }
  | directory _ entries => directory mtime entries
  | link target => link target
  | special kind _ => special kind mtime

/-- A directory's entries changed by `f` at the time `now`. -/
def changeEntries (now : Int64) (f : Nodes → Nodes) : Node → Node
  | directory _ entries => directory now (f entries)
  | node => node

theorem at?_update_self (f : Node → Node) (loc : Location) (node : Node) :
    (update f loc node).at? loc = (node.at? loc).map f := by
  induction loc generalizing node with
  | nil => rfl
  | cons name rest ih =>
    cases node with
    | directory mtime entries =>
      simp only [update, at?, Nodes.find?_modify_self]
      cases entries.find? name with
      | none => rfl
      | some node => exact ih node
    | _ => rfl

/-- Nodes that are neither above nor below a changed node stay as they were. -/
theorem at?_update_of_not_prefix (f : Node → Node) {loc other : Location} (node : Node)
    (h : ¬ loc <+: other) (h' : ¬ other <+: loc) :
    (update f loc node).at? other = node.at? other := by
  induction loc generalizing node other with
  | nil => exact absurd (List.nil_prefix) h
  | cons name rest ih =>
    cases other with
    | nil => exact absurd (List.nil_prefix) h'
    | cons first others =>
      cases node with
      | directory mtime entries =>
        simp only [update, at?]
        rcases Decidable.em (first = name) with rfl | ne
        · rw [Nodes.find?_modify_self]
          cases entries.find? first with
          | none => rfl
          | some node =>
            exact ih node (fun p => h (List.cons_prefix_cons.2 ⟨rfl, p⟩))
              (fun p => h' (List.cons_prefix_cons.2 ⟨rfl, p⟩))
        · rw [Nodes.find?_modify_of_ne _ _ ne]
      | _ => rfl

end Node

end Host

end FlatImage
