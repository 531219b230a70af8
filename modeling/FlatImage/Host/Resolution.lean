import FlatImage.Host

/-!
# Following paths

A path is followed segment by segment. Every segment but the last has to lead to a directory, and
a separator or a dot at the end is a segment too, so it asks the same of what stands before it.
Links are followed in place, at most forty of them, and whether a link at the very end is followed
depends on the call.

What a path leads to is either a node or the free name of an entry that its directory could have.
-/

namespace FlatImage.Host

inductive Place where
  | found (loc : Location) (node : Node)
  /-- The directory exists and has no entry of this name. -/
  | free (dir : Location) (name : Bytes)

/-- How many links may be followed on the way. -/
def mostLinks : Nat := 40

def longestName : Nat := 255

/-- The shortest path that is too long. -/
def tooLongPath : Nat := 4096

def origin (h : Host) (path : Path) : Location := if Path.isAbsolute path then [] else h.current

/-- The location of the directory above. The root is above itself. -/
def above (loc : Location) : Location := loc.dropLast

/-- Follows segments from a directory. -/
def follow (h : Host) (last : Bool) (links : Nat) (pending : List Bytes) (here : Location) :
    Except Errno Place :=
  match pending with
  | [] =>
    match h.at? here with
    | some node => .ok (.found here node)
    | none => .error .noEntry
  | segment :: rest =>
    if segment = [] ∨ segment = Name.current then follow h last links rest here
    else if segment = Name.parent then follow h last links rest (above here)
    else if longestName < segment.length then .error .nameTooLong
    else
      match h.entry? here segment with
      | none => if rest = [] then .ok (.free here segment) else .error .noEntry
      | some (.directory ..) => follow h last links rest (here ++ [segment])
      | some (.link target) =>
        if rest = [] ∧ !last then .ok (.found (here ++ [segment]) (.link target))
        else
          match links with
          | 0 => .error .tooManyLinks
          | links + 1 =>
            let start := if Path.isAbsolute target then [] else here
            follow h last links (Path.segments target ++ rest) start
      | some node =>
        if rest = [] then .ok (.found (here ++ [segment]) node) else .error .notDirectory
termination_by (links, pending.length)

/-- Where a path leads. The flag says whether a link at the end is followed. -/
def resolve (h : Host) (path : Path) (last : Bool) : Except Errno Place :=
  if path = [] then .error .noEntry
  else if tooLongPath ≤ path.length then .error .nameTooLong
  else follow h last mostLinks (Path.segments path) (h.origin path)

def lookup (h : Host) (path : Path) (last : Bool) : Except Errno (Location × Node) :=
  match h.resolve path last with
  | .error e => .error e
  | .ok (.free ..) => .error .noEntry
  | .ok (.found loc node) => .ok (loc, node)

/-- A path that cannot be passed to the operating system. -/
def hasZero (path : Path) : Bool := path.contains 0

def openDirectory (h : Host) (path : Path) (last : Bool) : Except Errno Location :=
  if hasZero path then .error .invalidArgument
  else
    match h.lookup path last with
    | .error e => .error e
    | .ok (loc, .directory ..) => .ok loc
    | .ok _ => .error .notDirectory

/-- Reads a file to its end. A socket cannot be opened. A host would wait with a pipe until someone
opens its other end; nobody does here, and what would go on waiting is refused like a socket. -/
def read (h : Host) (path : Path) : Except IoError Blob :=
  if hasZero path then .error .zeroByteInName
  else
    match h.lookup path true with
    | .error e => .error (.os e)
    | .ok (_, .file f) => .ok f.content
    | .ok (_, .directory ..) => .error (.os .isDirectory)
    | .ok _ => .error (.os .noDevice)

def modified? (h : Host) (path : Path) : Option Int64 :=
  if hasZero path then none
  else
    match h.lookup path true with
    | .error _ => none
    | .ok (_, node) => node.mtime?

/-- A call that is refused for a reason of its own, or else has the result that it has. -/
def guarded {α : Type} (refusal : Option IoError) (result : Except Errno α) : Except IoError α :=
  match refusal with
  | some e => .error e
  | none => result.mapError .os

end FlatImage.Host
