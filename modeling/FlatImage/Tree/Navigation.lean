import FlatImage.Text.Quoted
import FlatImage.Tree

/-!
# Paths in a tree

A path leads from a directory down to one below it. It is taken as relative even when it starts
with a separator, and it may not go up or name the directory itself.

Making the directories of a path can fail half-way. What was made until then stays, so
`makeDirectories` always gives the changed tree, beside the directory that it reached or the error.
-/

namespace FlatImage

inductive TreeError where
  /-- The path does not lead down. -/
  | invalidFilename (path : Path)
  | notFound (name : Bytes)
  | notADirectory (name : Bytes)
  deriving DecidableEq

/-- The text of an error. -/
def TreeError.message : TreeError → String
  | invalidFilename path => s!"Invalid filename {Quoted.ofBytes path}"
  | notFound name => s!"Directory entry {Quoted.ofBytes name} does not exist"
  | notADirectory name => s!"Directory entry {Quoted.ofBytes name} is not a subdirectory"

namespace Directory

/-- The directory that components lead to. The whole path is shown where it does not lead down. -/
def descend (whole : Path) : List Path.Component → Directory → Except TreeError Directory
  | [], d => .ok d
  | .root :: rest, d => descend whole rest d
  | .normal name :: rest, d =>
    match d.find? name with
    | some (.directory sub) => descend whole rest sub
    | some (.file _) => .error (.notADirectory name)
    | none => .error (.notFound name)
  | _ :: _, _ => .error (.invalidFilename whole)

def at? (d : Directory) (path : Path) : Except TreeError Directory :=
  descend path (Path.components path) d

/-- Changes the directory that components lead to, if there is one. -/
def change (whole : Path) (f : Directory → Directory) :
    List Path.Component → Directory → Except TreeError Directory
  | [], d => .ok (f d)
  | .root :: rest, d => change whole f rest d
  | .normal name :: rest, d =>
    match d.find? name with
    | some (.directory sub) => do
      let changed ← change whole f rest sub
      return d.insert name (.directory changed)
    | some (.file _) => .error (.notADirectory name)
    | none => .error (.notFound name)
  | _ :: _, _ => .error (.invalidFilename whole)

/-- Changes the directory at a path, and nothing if there is none. -/
def update (d : Directory) (path : Path) (f : Directory → Directory) :
    Except TreeError Directory :=
  change path f (Path.components path) d

/-- Makes the missing directories of a path and changes the innermost one. The result is the tree
as it then is, and the innermost directory after the change. -/
def make (whole : Path) (f : Directory → Directory) :
    List Path.Component → Directory → Directory × Except TreeError Directory
  | [], d => (f d, .ok (f d))
  | .root :: rest, d => make whole f rest d
  | .normal name :: rest, d =>
    match d.find? name with
    | some (.directory sub) =>
      let (made, reached) := make whole f rest sub
      (d.insert name (.directory made), reached)
    | some (.file _) => (d, .error (.notADirectory name))
    | none =>
      let (made, reached) := make whole f rest empty
      (d.insert name (.directory made), reached)
  | _ :: _, d => (d, .error (.invalidFilename whole))

/-- Makes the missing directories of a path, and changes the innermost one. -/
def makeDirectories (d : Directory) (path : Path) (f : Directory → Directory) :
    Directory × Except TreeError Directory :=
  make path f (Path.components path) d

/-- Puts a file at a path and makes the directories above it. Whatever had the file's name is
replaced. -/
def addFile (d : Directory) (path : Path) (file : File) : Directory × Except TreeError Unit :=
  match Path.fileName? path with
  | none => (d, .error (.invalidFilename path))
  | some name =>
    let (made, reached) :=
      d.makeDirectories ((Path.parent? path).getD []) (·.insert name (.file file))
    (made, reached.map fun _ => ())

end Directory

end FlatImage
