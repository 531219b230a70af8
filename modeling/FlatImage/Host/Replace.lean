import FlatImage.Host.Resolution
import FlatImage.Tree.ToImage

/-!
# Replacing an image file

An image is built in a temporary file beside its destination and takes the destination's name only
when it is complete. Before that the run takes a lock that is named after the destination; the lock
file stays when the run is over. A run that fails at any step removes its temporary file, so that
the destination is either untouched or a complete image.
-/

namespace FlatImage.Host

def outputDirectory (dest : Path) : Path :=
  match Path.parent? dest with
  | none | some [] => Name.current
  | some dir => dir

def lockName (name : Bytes) : Bytes := Bytes.ofString "." ++ name ++ Bytes.ofString ".lock"

def lockPath (dest : Path) (name : Bytes) : Path :=
  Path.join (outputDirectory dest) (lockName name)

/-- Opens the file at a path for writing and makes it if it is missing. A link at the end is
refused. The answer says whether someone else holds the file's lock. -/
def openLock (h : Host) (path : Path) : Except Errno (Bool × Host) :=
  if hasZero path then .error .invalidArgument
  else
    match h.resolve path false with
    | .error e => .error e
    | .ok (.free dir name) => .ok (false, h.add dir name (h.freshFile (.hole 0)))
    | .ok (.found _ (.file f)) => .ok (f.locked, h)
    | .ok (.found _ (.special .pipe _)) => .ok (false, h)
    | .ok (.found _ (.special .socket _)) => .error .noDevice
    | .ok (.found _ (.directory ..)) => .error .isDirectory
    | .ok (.found _ (.link _)) => .error .tooManyLinks

/-- The temporary name with a number. Nobody outside the run can tell what a temporary file is
called, and so no path leads to one: there is a separator in its name. -/
def temporaryName (n : Nat) : Bytes := Bytes.ofString s!".blockfs/{n}.tmp"

/-- The first number from `n` on, of `left` ones, whose temporary name no entry has. -/
def freeNumber (entries : Nodes) (n : Nat) : (left : Nat) → Nat
  | 0 => n
  | left + 1 =>
    if (entries.find? (temporaryName n)).isSome then freeNumber entries (n + 1) left else n

/-- A temporary name that no entry has. Of one more number than there are entries, one is free. -/
def freeName (entries : Nodes) : Bytes :=
  temporaryName (freeNumber entries 0 (entries.toList.length + 1))

def makeTemporary (h : Host) (dir : Path) : Except Errno ((Location × Bytes) × Host) :=
  match h.openDirectory dir true with
  | .error e => .error e
  | .ok loc =>
    match h.at? loc with
    | some (.directory _ entries) =>
      let name := freeName entries
      .ok ((loc, name), h.add loc name (h.freshFile (.hole 0)))
    | _ => .error .notDirectory

/-- Why a file cannot take the name at the end of a path, whatever is there. The path may be too
long, a separator at the end asks for a directory, and a dot at the end means one that exists and
is in use. -/
def renameRefusal? (h : Host) (dest : Path) : Option Errno :=
  let fromEnd := (Path.segments dest).reverse
  if tooLongPath ≤ dest.length then some .nameTooLong
  else if (fromEnd.dropWhile (· = [])).head? = some Name.current then
    match h.openDirectory dest true with
    | .error e => some e
    | .ok _ => some .busy
  else if fromEnd.head? = some [] then some .notDirectory
  else none

/-- Gives the file at one name of a directory another name there, in place of whatever file has
it. -/
def rename (h : Host) (dir : Location) (old name : Bytes) (dest : Path) : Except Errno Host :=
  match h.renameRefusal? dest with
  | some e => .error e
  | none =>
    match h.entry? dir name, h.entry? dir old with
    | some (.directory ..), _ => .error .isDirectory
    | _, none => .error .noEntry
    | _, some node => .ok ((h.remove dir old).put dir name node)

/-- Where the contents of host files come from. -/
def sources (h : Host) : Sources := fun path => (h.read path).map fun content => { content }

/-- What the host refuses of the calls that replace a file, beside what its files, directories and
links refuse. The calls on the temporary file's bytes may be refused in any pattern. -/
structure Refusals where
  openLock : Option IoError := none
  takeLock : Option IoError := none
  makeTemporary : Option IoError := none
  output : Array Output.Call → Output.Call → Option IoError := fun _ _ => none
  setPermissions : Option IoError := none
  rename : Option IoError := none

/-- Compiles a tree into the image file at a path. -/
def compileTo (h : Host) (root : FlatImage.Directory) (dest : Path) (o : Options)
    (refusals : Refusals := {}) : Except (Fault RunError) Summary × Host :=
  match Path.fileName? dest with
  | none => (Fault.fail (.writeFailure dest (.described "not a file name")), h)
  | some name =>
    match guarded refusals.openLock (h.openLock (lockPath dest name)) with
    | .error e => (Fault.fail (.writeFailure (lockPath dest name) e), h)
    | .ok (true, h) => (Fault.fail (.outputLocked dest), h)
    | .ok (false, h) =>
      match refusals.takeLock with
      | some e => (Fault.fail (.writeFailure (lockPath dest name) e), h)
      | none =>
        match guarded refusals.makeTemporary (h.makeTemporary (outputDirectory dest)) with
        | .error e => (Fault.fail (.writeFailure (outputDirectory dest) e), h)
        | .ok ((dir, temporary), h) =>
          match root.compile h.sources o (.file refusals.output) with
          | (.error e, _) => (.error e, h.remove dir temporary)
          | (.ok summary, output) =>
            match refusals.setPermissions with
            | some e => (Fault.fail (.writeFailure dest e), h.remove dir temporary)
            | none =>
              let written := h.put dir temporary (h.freshFile output.content)
              match guarded refusals.rename (written.rename dir temporary name dest) with
              | .error e => (Fault.fail (.writeFailure dest e), h.remove dir temporary)
              | .ok h => (.ok summary, h)

/-- The image at a path is newer than everything in a tree, in whole seconds. -/
def isCurrent (h : Host) (root : FlatImage.Directory) (dest : Path) : Bool :=
  match h.modified? dest with
  | none => false
  | some mtime => 0 ≤ mtime && root.newest < mtime

end FlatImage.Host
