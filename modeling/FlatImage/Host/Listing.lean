import FlatImage.Host.Resolution

/-!
# Listings of a host

Everything below a directory, each node with its path from there, in byte order of the paths. This
is not the order in which a walk meets them: what follows a directory's name in the paths below it
is a separator, and other bytes come before that.
-/

namespace FlatImage.Host

mutual

/-- A node with its path, and everything below it. -/
def Node.listed (path : Path) : Node → List (Path × Node)
  | .directory mtime entries => (path, .directory mtime entries) :: entries.listed path
  | node => [(path, node)]

def Nodes.listed (path : Path) : Nodes → List (Path × Node)
  | .nil => []
  | .cons name node rest => node.listed (Path.join path name) ++ rest.listed path

end

/-- Everything below a directory. Below a path that is no directory there is nothing. -/
def list (h : Host) (path : Path) : List (Path × Node) :=
  match h.lookup path true with
  | .ok (_, .directory _ entries) =>
    (entries.listed []).mergeSort fun a b => !Bytes.before b.1 a.1
  | _ => []

end FlatImage.Host
