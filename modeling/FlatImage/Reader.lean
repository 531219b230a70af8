import FlatImage.Blob
import FlatImage.IoError

/-!
# Reading a content to its end

A host hands out a content in pieces whose sizes it chooses, never empty ones before the end and
never more than was asked for. `collect` asks until it has what it wants or the content ends, so
what it returns does not depend on the pieces. A host may also fail behind some part of a content;
what it handed out in the same request is lost then.
-/

namespace FlatImage

/-- The bytes that a file hands out, and the failure that follows them unless they end there. -/
structure Source where
  content : Blob
  failure : Option IoError := none

/-- A source, how much of it has been read, and the largest sizes of the coming pieces. A size of
zero counts as one, and when no sizes are left each piece is as large as was asked for. -/
structure Reader extends Source where
  position : Nat := 0
  pieces : List Nat := []

namespace Reader

def left (r : Reader) : Nat := r.content.size - r.position

/-- Reads one piece of at most `want` bytes. -/
def read (r : Reader) (want : Nat) : Blob × Reader :=
  let n := match r.pieces with
    | [] => want
    | most :: _ => min want (max 1 most)
  (r.content.slice r.position n,
    { r with position := r.position + min n r.left, pieces := r.pieces.tail })

/-- Reads pieces of the given sizes until `want` bytes are there, or the content ends. -/
def fill (source : Source) : (pieces : List Nat) → (position want : Nat) → Blob × Reader
  | [], position, want => Reader.read ⟨source, position, []⟩ want
  | most :: pieces, position, want =>
    if want = 0 ∨ source.content.size ≤ position then
      (.hole 0, ⟨source, position, most :: pieces⟩)
    else
      let (piece, next) := Reader.read ⟨source, position, most :: pieces⟩ want
      let (rest, last) := fill source pieces next.position (want - piece.size)
      (piece.append rest, last)

/-- Reads `want` bytes, fewer only at the end. A source that fails there gives none of them. -/
def collect (r : Reader) (want : Nat) : Except IoError (Blob × Reader) :=
  let (bytes, rest) := fill r.toSource r.pieces r.position want
  match r.failure with
  | some e => if bytes.size < want then .error e else .ok (bytes, rest)
  | none => .ok (bytes, rest)

end Reader

end FlatImage
