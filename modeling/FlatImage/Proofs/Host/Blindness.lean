import FlatImage.Host.Unpack

/-!
# Unpacking follows no link

A blind host is one whose links have lost their targets. Unpacking goes through the same steps on a
host and on the blind host, with the same result and, links' targets apart, the same host after it.
So no step depends on where a link leads, and since unpacking changes places below the destination
only, it is at those places that it stops when a link is in the way.
-/

namespace FlatImage.Host

mutual

/-- The node without the targets of links. -/
def Node.blind : Node → Node
  | .directory mtime entries => .directory mtime entries.blind
  | .link _ => .link []
  | .file f => .file f
  | .special kind mtime => .special kind mtime

def Nodes.blind : Nodes → Nodes
  | .nil => .nil
  | .cons name node rest => .cons name node.blind rest.blind

end

def blind (h : Host) : Host := { h with root := h.root.blind }

/-! ## Looking and changing without the targets -/

theorem Nodes.find?_blind (name : Bytes) (entries : Nodes) :
    entries.blind.find? name = (entries.find? name).map Node.blind := by
  match entries with
  | nil => rfl
  | cons other node rest =>
    by_cases is : other = name
    · simp only [Nodes.blind, find?, if_pos is, Option.map_some]
    · simp only [Nodes.blind, find?, if_neg is]
      exact find?_blind name rest

theorem Nodes.modify_blind {f g : Node → Node} (same : ∀ node, (f node).blind = g node.blind)
    (name : Bytes) (entries : Nodes) :
    (entries.modify name f).blind = entries.blind.modify name g := by
  match entries with
  | nil => rfl
  | cons other node rest =>
    by_cases is : other = name
    · simp only [Nodes.blind, modify, if_pos is, same]
    · simp only [Nodes.blind, modify, if_neg is]
      rw [modify_blind same name rest]

theorem Node.at?_blind (loc : Location) (node : Node) :
    node.blind.at? loc = (node.at? loc).map Node.blind := by
  induction loc generalizing node with
  | nil => rfl
  | cons name rest ih =>
    cases node with
    | directory mtime entries =>
      simp only [Node.blind, at?, Nodes.find?_blind]
      cases entries.find? name with
      | none => rfl
      | some node => exact ih node
    | _ => rfl

theorem Node.update_blind {f g : Node → Node} (same : ∀ node, (f node).blind = g node.blind)
    (loc : Location) (node : Node) : (update f loc node).blind = update g loc node.blind := by
  induction loc generalizing node with
  | nil => exact same node
  | cons name rest ih =>
    cases node with
    | directory mtime entries =>
      simp only [update, Node.blind]
      rw [Nodes.modify_blind ih]
    | _ => rfl

section

variable (h : Host) (dir : Location) (name : Bytes) (mtime : Int64)

theorem entry?_blind :
    h.blind.entry? dir name = Option.map Node.blind ( h.entry? dir name) :=
  Node.at?_blind _ h.root

theorem add_blind (node : Node) :
    (h.add dir name node).blind = h.blind.add dir name node.blind := by
  have same (into : Node) : (Node.changeEntries h.now (.cons name node) into).blind
      = Node.changeEntries h.now (.cons name node.blind) into.blind := by
    cases into <;> rfl
  exact congrArg (Host.mk · h.current h.now) (Node.update_blind same dir h.root)

theorem stamp_blind : (h.stamp dir mtime).blind = h.blind.stamp dir mtime := by
  have same (node : Node) : (node.setMtime mtime).blind = node.blind.setMtime mtime := by
    cases node <;> rfl
  exact congrArg (Host.mk · h.current h.now) (Node.update_blind same dir h.root)

end

/-! ## Unpacking without the targets -/

section

open Unpack (Context Seen Task Refusals later nameOf)

variable (h : Host) (img : Image) (place : Location) (context : List Context)

theorem restoreMtime_blind (mtime : UInt64) (refusals : Refusals) :
    h.blind.restoreMtime place context mtime refusals
      = (h.restoreMtime place context mtime refusals).map id blind := by
  unfold restoreMtime
  split
  · cases refusals.setMtime with
    | some e => rfl
    | none =>
      rw [← stamp_blind]
      rfl
  · rfl

theorem vacant_blind (name : Bytes) : h.blind.vacant place name = h.vacant place name := by
  unfold vacant
  rw [entry?_blind]
  cases h.entry? place name <;> rfl

/-- A link in place of a directory is not opened, wherever it leads. -/
theorem openEntry_blind (name : Bytes) : h.blind.openEntry place name = h.openEntry place name := by
  unfold openEntry
  rw [entry?_blind]
  cases h.entry? place name with
  | none => rfl
  | some node => cases node <;> rfl

theorem unpackFile_blind (record : Record) (refusals : Refusals) :
    h.blind.unpackFile img place context record refusals
      = (h.unpackFile img place context record refusals).map id blind := by
  unfold unpackFile
  cases Unpack.reading context (img.fileData record) with
  | error e => rfl
  | ok data =>
    have file (content : Blob) : h.blind.add place record.name (h.blind.freshFile content)
        = (h.add place record.name (h.freshFile content)).blind :=
      (add_blind h place record.name (h.freshFile content)).symm
    simp only [vacant_blind, file]
    cases guarded refusals.createFile (h.vacant place record.name) with
    | error e => rfl
    | ok _ =>
      cases refusals.short? data with
      | some short => rfl
      | none => exact restoreMtime_blind _ _ _ _ _

theorem enterDirectory_blind (name : Bytes) (refusals : Refusals) :
    h.blind.enterDirectory place context name refusals
      = (h.enterDirectory place context name refusals).map id blind := by
  have directory : h.blind.add place name h.blind.freshDirectory
      = (h.add place name h.freshDirectory).blind :=
    (add_blind h place name h.freshDirectory).symm
  unfold enterDirectory
  simp only [vacant_blind, directory, openEntry_blind]
  split
  · cases guarded refusals.openDirectory
      ((h.add place name h.freshDirectory).openEntry place name) <;> rfl
  · cases guarded refusals.openDirectory (h.openEntry place name) <;> rfl
  · rfl

@[simp]
theorem later_none : later (fun _ => {}) = fun _ => {} := rfl

/-- How a record whose name is accepted is unpacked. -/
theorem unpackAll_record {record : Record} {name : Bytes} (named : nameOf context record = .ok name)
    (seen : Seen) (rest : List Task) (refusals : Nat → Refusals) :
    h.unpackAll img seen (.record place context record :: rest) refusals
      = let inner := context ++ [.extracting name]
        if record.isDirectory then
          match img.directory record with
          | .error e => (.error (e.map fun e => ⟨inner, .image e⟩), h)
          | .ok records =>
            if seen.has record.start.toNat then
              (Unpack.fail inner (.reachableTwice record.start), h)
            else
              match h.enterDirectory place inner name (refusals 0) with
              | (.error e, h) => (.error e, h)
              | (.ok sub, h) => h.unpackAll img (record.start :: seen)
                  (records.map (.record sub inner) ++ .stamp sub inner record.mtime :: rest)
                  (later refusals)
        else
          match h.unpackFile img place inner record (refusals 0) with
          | (.error e, h) => (.error e, h)
          | (.ok (), h) => h.unpackAll img seen rest (later refusals) := by
  rw [unpackAll, named]
  dsimp only
  congr 1
  split
  · next found => rw [found]
  · next found =>
    rw [found]
    dsimp only
    split <;> rfl

/-- Tasks are worked through in the same way, wherever links lead. -/
theorem unpackAll_blind (seen : Seen) (tasks : List Task) (refusals : Nat → Refusals) :
    h.blind.unpackAll img seen tasks refusals
      = (h.unpackAll img seen tasks refusals).map id blind := by
  fun_induction unpackAll h img seen tasks refusals with
  | case1 h seen refusals =>
    rw [unpackAll]
    rfl
  | case2 h seen refusals place context mtime rest e h₁ step =>
    rw [unpackAll, restoreMtime_blind, step]
    rfl
  | case3 h seen refusals place context mtime rest h₁ step ih =>
    rw [unpackAll, restoreMtime_blind, step]
    exact ih
  | case4 h seen refusals place outer record rest e named =>
    rw [unpackAll, named]
    rfl
  | case5 h seen refusals place outer record rest name named context is e table =>
    simp only [unpackAll_record _ _ _ _ named, if_pos is, table]
    rfl
  | case6 h seen refusals place outer record rest name named context is inner table again =>
    simp only [unpackAll_record _ _ _ _ named, if_pos is, table, if_pos again]
    rfl
  | case7 h seen refusals place outer record rest name named context is inner table new e h₁ step =>
    simp only [unpackAll_record _ _ _ _ named, if_pos is, table, if_neg new]
    rw [enterDirectory_blind, step]
    rfl
  | case8 h seen refusals place outer record rest name named context is inner table new sub h₁ step
      ih =>
    simp only [unpackAll_record _ _ _ _ named, if_pos is, table, if_neg new]
    rw [enterDirectory_blind, step]
    exact ih
  | case9 h seen refusals place outer record rest name named context is e h₁ step =>
    simp only [unpackAll_record _ _ _ _ named, if_neg is]
    rw [unpackFile_blind, step]
    rfl
  | case10 h seen refusals place outer record rest name named context is h₁ step ih =>
    simp only [unpackAll_record _ _ _ _ named, if_neg is]
    rw [unpackFile_blind, step]
    exact ih

end

end FlatImage.Host
