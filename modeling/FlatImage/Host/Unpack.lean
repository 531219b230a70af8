import FlatImage.Host.Resolution
import FlatImage.Image.Tables
import FlatImage.Text.Quoted

/-!
# Unpacking an image

An image is unpacked into a directory that exists. Nothing that the image says is trusted: every
name is checked before it is used, a file is only ever made new, and a directory that is already
there is entered only if it is one, and not a link to one. Every call names an entry of a directory
that is already open, so nothing outside the destination can be reached.

The host may refuse any call, and may take only the first bytes of a file: the run stops there and
what is there stays.

Unpacking works through a list of tasks: records still to be unpacked, and directories whose
modification time is set after everything in them is there. No table is entered twice, which is
what makes the list come to an end.
-/

namespace FlatImage.Host

/-- What was being done when something failed, from the outside in. -/
inductive Unpack.Context where
  | opening (dest : Path)
  | extracting (name : Bytes)
  deriving DecidableEq

inductive Unpack.Cause where
  | image (e : ImageError)
  | host (e : IoError)
  /-- The name of a record could lead out of the destination. -/
  | refusedName (name : Bytes)
  | reachableTwice (start : UInt32)
  /-- The host keeps modification times in signed numbers. -/
  | mtimeOutOfRange
  deriving DecidableEq

/-- Why unpacking failed. -/
structure Unpack.Failure where
  context : List Unpack.Context
  cause : Unpack.Cause
  deriving DecidableEq

namespace Unpack

def Context.message : Context → String
  | opening dest => s!"Opening {Quoted.ofBytes dest}"
  | extracting name => s!"Extracting {Quoted.ofBytes name}"

def Cause.message : Cause → String
  | image e => e.message
  | host e => e.message
  | refusedName name => s!"Refusing to extract entry named {Quoted.ofBytes name}"
  | reachableTwice start => s!"Table at block {start} is reachable twice"
  | mtimeOutOfRange => "number too large to fit in target type"

def Failure.chain (f : Failure) : List String :=
  f.context.map Context.message ++ [f.cause.message]

inductive Task where
  | record (dir : Location) (context : List Context) (record : Record)
  | stamp (dir : Location) (context : List Context) (mtime : UInt64)

/-- The result of a step, which fails with a failure in a context. -/
abbrev Step := Except (Fault Failure)

def fail {α : Type} (context : List Context) (cause : Cause) : Step α :=
  Fault.fail ⟨context, cause⟩

def reading {α : Type} (context : List Context) : Reading α → Step α
  | .ok a => .ok a
  | .error e => .error (e.map fun e => ⟨context, .image e⟩)

/-- What the host refuses of the calls of one task, beside what its files, directories and links
refuse. -/
structure Refusals where
  createFile : Option IoError := none
  /-- After how many bytes of a file the host takes no more. -/
  write : Option (Nat × IoError) := none
  makeDirectory : Option IoError := none
  openDirectory : Option IoError := none
  setMtime : Option IoError := none

/-- How many bytes of a file the host takes when it does not take them all. -/
def Refusals.short? (refusals : Refusals) (data : ByteArray) : Option (Nat × IoError) :=
  refusals.write.filter (·.1 < data.size)

/-- What is refused of the tasks behind the first. -/
def later (refusals : Nat → Refusals) : Nat → Refusals := fun n => refusals (n + 1)

end Unpack

open Unpack (Context Task Step Refusals later)

/-- One more than the largest modification time of the host. -/
def mtimeBound : UInt64 := 0x8000000000000000

def restoreMtime (h : Host) (loc : Location) (context : List Context) (mtime : UInt64)
    (refusals : Refusals := {}) : Step Unit × Host :=
  if mtime < mtimeBound then
    match refusals.setMtime with
    | some e => (Unpack.fail context (.host e), h)
    | none => (.ok (), h.stamp loc mtime.toInt64)
  else (Unpack.fail context .mtimeOutOfRange, h)

/-- Something new is only made where nothing is. -/
def vacant (h : Host) (dir : Location) (name : Bytes) : Except Errno Unit :=
  match h.entry? dir name with
  | none => .ok ()
  | some _ => .error .exists

/-- Opens a directory in a directory, and follows no link. -/
def openEntry (h : Host) (dir : Location) (name : Bytes) : Except Errno Location :=
  match h.entry? dir name with
  | none => .error .noEntry
  | some (.directory ..) => .ok (dir ++ [name])
  | some _ => .error .notDirectory

/-- Makes a new file in a directory. When the host takes no more bytes, those it took stay. -/
def unpackFile (h : Host) (img : Image) (dir : Location) (context : List Context)
    (record : Record) (refusals : Refusals := {}) : Step Unit × Host :=
  match Unpack.reading context (img.fileData record) with
  | .error e => (.error e, h)
  | .ok data =>
    match guarded refusals.createFile (h.vacant dir record.name) with
    | .error e => (Unpack.fail context (.host e), h)
    | .ok () =>
      match refusals.short? data with
      | some (taken, e) =>
        let h := h.add dir record.name (h.freshFile (.ofBuffer (data.extract 0 taken)))
        (Unpack.fail context (.host e), h)
      | none =>
        let h := h.add dir record.name (h.freshFile (.ofBuffer data))
        h.restoreMtime (dir ++ [record.name]) context record.mtime refusals

/-- Makes a directory in a directory unless there is one, and enters it. -/
def enterDirectory (h : Host) (dir : Location) (context : List Context) (name : Bytes)
    (refusals : Refusals := {}) : Step Location × Host :=
  let enter (h : Host) : Step Location × Host :=
    match guarded refusals.openDirectory (h.openEntry dir name) with
    | .error e => (Unpack.fail context (.host e), h)
    | .ok sub => (.ok sub, h)
  match guarded refusals.makeDirectory (h.vacant dir name) with
  | .ok () => enter (h.add dir name h.freshDirectory)
  | .error (.os .exists) => enter h
  | .error e => (Unpack.fail context (.host e), h)

abbrev Unpack.Seen := List UInt32

def Unpack.Seen.has (seen : Seen) (block : Nat) : Bool :=
  seen.any fun start => start.toNat == block

open Unpack (Seen)

/-- The name of a record, when an entry of that name can be made. -/
def Unpack.nameOf (context : List Context) (record : Record) : Step Bytes :=
  match Unpack.reading context (Image.name record) with
  | .error e => .error e
  | .ok name =>
    match Name.check name with
    | .ok () => .ok name
    | .error _ => Unpack.fail context (.refusedName name)

/-- Works through tasks, and stops at the first that fails. The host may refuse something of every
task. -/
def unpackAll (h : Host) (img : Image) (seen : Seen) (tasks : List Task)
    (refusals : Nat → Refusals := fun _ => {}) : Step Unit × Host :=
  match tasks with
  | [] => (.ok (), h)
  | .stamp dir context mtime :: rest =>
    match h.restoreMtime dir context mtime (refusals 0) with
    | (.error e, h) => (.error e, h)
    | (.ok (), h) => unpackAll h img seen rest (later refusals)
  | .record dir outer record :: rest =>
    match Unpack.nameOf outer record with
    | .error e => (.error e, h)
    | .ok name =>
      let context := outer ++ [.extracting name]
      if record.isDirectory then
        match _readable : img.directory record with
        | .error e => (.error (e.map fun e => ⟨context, .image e⟩), h)
        | .ok records =>
          if _fresh : seen.has record.start.toNat then
            (Unpack.fail context (.reachableTwice record.start), h)
          else
            match h.enterDirectory dir context name (refusals 0) with
            | (.error e, h) => (.error e, h)
            | (.ok sub, h) =>
              unpackAll h img (record.start :: seen)
                (records.map (.record sub context) ++ .stamp sub context record.mtime :: rest)
                (later refusals)
      else
        match h.unpackFile img dir context record (refusals 0) with
        | (.error e, h) => (.error e, h)
        | (.ok (), h) => unpackAll h img seen rest (later refusals)
termination_by (Image.unseen img.superblock.dataStart.toNat seen.has, tasks.length)
decreasing_by
  · apply Prod.Lex.right
    simp
  · apply Prod.Lex.left
    exact Image.unseen_lt (Image.start_lt_of_directory _readable)
      (fun b hb => by simp only [Seen.has, List.any_cons] at hb ⊢; rw [hb, Bool.or_true])
      (by simpa using _fresh) (by simp [Seen.has])
  · apply Prod.Lex.right
    simp

/-- Unpacks an image into the directory at a path. What is refused first is opening that one. -/
def unpack (h : Host) (img : Image) (dest : Path) (refusals : Nat → Refusals := fun _ => {}) :
    Step Unit × Host :=
  match guarded (refusals 0).openDirectory (h.openDirectory dest true) with
  | .error e => (Unpack.fail [.opening dest] (.host e), h)
  | .ok dir =>
    match Unpack.reading [] img.root with
    | .error e => (.error e, h)
    | .ok records =>
      unpackAll h img [img.superblock.rootTable] (records.map (.record dir [])) (later refusals)

end FlatImage.Host
