import FlatImage.CommandLine.Compiler
import FlatImage.CommandLine.Dumper
import FlatImage.Host.Arrange

/-!
# The program

Both commands are functions on a host, so the program reads what their arguments lead to into a
host, runs the command on it, and writes the new and changed files back. Files that are written
here are dated by the file system.
-/

namespace FlatImage.Program

/-- The text of a path. Arguments and checked names are text. -/
def pathText (path : Path) : String := (Utf8.decode? path).getD ""

def entryOf (path : Path) : IO.FS.DirEntry := ⟨".", pathText path⟩

/-- A node of the file system without what is below it. -/
def shallow (entry : IO.FS.DirEntry) (info : IO.FS.Metadata) : IO Host.Node := do
  let mtime := Int64.ofInt info.modified.sec
  match info.type with
  | .dir => return .directory mtime .nil
  | .file => return .file ⟨.ofBuffer (← IO.FS.readBinFile entry.path), mtime, false⟩
  | .symlink => return .link Name.current
  | .other => return .special .socket mtime

/-- A node of the file system with everything below it. -/
partial def deep (entry : IO.FS.DirEntry) (info : IO.FS.Metadata) : IO Host.Node := do
  match info.type with
  | .dir =>
    let below ← entry.path.readDir
    let nodes ← below.foldrM (fun (e : IO.FS.DirEntry) nodes => do
      let node ← deep e (← e.path.symlinkMetadata)
      return Host.Nodes.cons (Bytes.ofString e.fileName) node nodes) Host.Nodes.nil
    return .directory (Int64.ofInt info.modified.sec) nodes
  | _ => shallow entry info

/-- What a path leads to, if it leads to something. -/
def infoOf (path : Path) : IO (Option IO.FS.Metadata) := do
  try
    return some (← (entryOf path).path.metadata)
  catch _ => return none

/-- Takes over the directories that a path goes through, and what it leads to. -/
def takeOver (h : Host) (path : Path) : IO Host :=
  (Host.starts path).foldlM (fun h start => do
    match h.resolve start true, ← infoOf start with
    | .ok (.free dir name), some info => return h.add dir name (← shallow (entryOf start) info)
    | _, _ => return h) h

/-- Takes over a path with everything below it. -/
def takeOverAll (h : Host) (path : Path) : IO Host := do
  let h ← takeOver h path
  match h.lookup path true, ← infoOf path with
  | .ok (loc, _), some info =>
    let node ← deep (entryOf path) info
    return h.update loc fun _ => node
  | _, _ => return h

/-- The date of everything that a run writes. No file has it. -/
def mark : Int64 := Int64.minValue

/-- A host with nothing but the current directory. -/
def emptyHost : IO Host := do
  let here := Bytes.ofString (← IO.currentDir).toString
  let names := (Path.segments here).filter (· ≠ [])
  return { (Host.mk (.directory mark .nil) [] mark).makeDirectories here with current := names }

/-- Writes a file under another name first, so that it is never seen half-written. -/
def replaceFile (path : Path) (content : ByteArray) : IO Unit := do
  let target := entryOf path
  let temporary := entryOf (path ++ Bytes.ofString ".tmp")
  IO.FS.writeBinFile temporary.path content
  IO.FS.rename temporary.path target.path

/-- Writes what is new or changed at a path and below it. -/
partial def store (path : Path) (old : Option Host.Node) : Host.Node → IO Unit
  | .file f =>
    match old with
    | some (.file f') => if f.mtime = f'.mtime then return else replaceFile path f.content.toBuffer
    | _ => replaceFile path f.content.toBuffer
  | .directory _ entries => do
    let known ← match old with
      | some (.directory _ known) => pure known
      | _ => do
        IO.FS.createDir (entryOf path).path
        pure Host.Nodes.nil
    for (name, node) in entries.toList do
      store (Path.join path name) (known.find? name) node
  | _ => return

/-- Writes what a run left at a path. -/
def storeChanges (before after : Host) (path : Path) : IO Unit :=
  match after.lookup path false with
  | .ok (_, node) => store path ((before.lookup path false).toOption.map (·.2)) node
  | .error _ => return

/-- Says whether someone else holds the lock at a path, and holds it if not. -/
def heldByOther (path : Path) : IO (Bool × Option IO.FS.Handle) := do
  match ← infoOf path with
  | none => return (false, none)
  | some _ =>
    let handle ← IO.FS.Handle.mk (entryOf path).path .readWrite
    return (!(← handle.tryLock), some handle)

/-- Writes what a command wrote, and gives its exit code. -/
def report (outcome : CommandLine.Outcome) : IO UInt32 := do
  (← IO.getStdout).putStr outcome.stdout
  (← IO.getStderr).putStr outcome.stderr
  return outcome.exit.toUInt32

def compiler (arguments : List Bytes) : IO UInt32 := do
  let mut host ← emptyHost
  let mut written : List Path := []
  let mut held : Option IO.FS.Handle := none
  if let .run a := CommandLine.Compiler.command.read arguments then
    let output := a.operand 1
    host ← takeOver host output
    host ← takeOverAll host (a.operand 0)
    written := [output]
    if let some name := Path.fileName? output then
      let lock := Host.lockPath output name
      host ← takeOver host lock
      let (taken, handle) ← heldByOther lock
      if taken then host := host.lock lock
      held := handle
      written := [lock, output]
  let environment := (← IO.getEnv "SOURCE_DATE_EPOCH").map Bytes.ofString
  let (outcome, after) := CommandLine.Compiler.execute arguments environment host
  for path in written do
    storeChanges host after path
  if let some handle := held then handle.unlock
  report outcome

def dumper (arguments : List Bytes) : IO UInt32 := do
  let mut host ← emptyHost
  let mut written : List Path := []
  if let .run a := CommandLine.Dumper.command.read arguments then
    host ← takeOver host (a.operand 0)
    if let some dest := a.option? "extract" then
      host ← takeOverAll host dest
      written := [dest]
  let (outcome, after) := CommandLine.Dumper.execute arguments host
  for path in written do
    storeChanges host after path
  report outcome

end FlatImage.Program

open FlatImage in
/-- Runs the command that the first argument names on the others. -/
def main (arguments : List String) : IO UInt32 :=
  match arguments with
  | [] => Program.report (.misuse "Usage: <fs-compiler|blockfs-dump> [ARGUMENTS]...")
  | name :: rest =>
    let bytes := rest.map Bytes.ofString
    if name = CommandLine.Compiler.name then Program.compiler bytes
    else if name = CommandLine.Dumper.name then Program.dumper bytes
    else Program.report (.misuse "Usage: <fs-compiler|blockfs-dump> [ARGUMENTS]...")
