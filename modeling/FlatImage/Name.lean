import FlatImage.Geometry
import FlatImage.Text.Utf8

/-!
# Names of entries

A name must be able to stand between two separators of a path and must be text. Only a name that
could be an entry of some directory is measured against the room that a record has for it.
-/

namespace FlatImage

/-- Why a name cannot stand in a record. -/
inductive NameError where
  | tooLong (length : Nat)
  | invalid
  deriving DecidableEq

namespace Name

/-- The component of a path that means the directory itself. -/
def current : Bytes := [Bytes.dot]

def parent : Bytes := [Bytes.dot, Bytes.dot]

/-- The name is text, is not empty, does not mean a directory by its position, and holds neither a
separator nor a zero byte. -/
def wellFormed (name : Bytes) : Bool :=
  Utf8.valid name && !name.isEmpty && name != current && name != parent
    && !name.contains Bytes.slash && !name.contains 0

/-- Accepts the names that a record can hold. -/
def check (name : Bytes) : Except NameError Unit :=
  if !wellFormed name then .error .invalid
  else if name.length ≤ Geometry.nameCapacity then .ok ()
  else .error (.tooLong name.length)

theorem check_eq_ok_iff {name : Bytes} :
    check name = .ok () ↔ wellFormed name ∧ name.length ≤ Geometry.nameCapacity := by
  unfold check
  cases wellFormed name <;> simp

end Name

end FlatImage
