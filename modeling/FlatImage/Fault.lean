/-!
# Two ways to give no result

An operation fails in one of two ways: it reports an error, or it is stopped because a precondition
does not hold that its caller promised (a count past the end of a buffer, a division by a block
size of zero, a number that does not fit its field). The second is not an error that a caller
handles; it is kept apart so that "this never happens" can be stated.
-/

namespace FlatImage

/-- Why an operation gave no result: an error that it reports, or a broken precondition. -/
inductive Fault (ε : Type) where
  | error (e : ε)
  | abort
  deriving DecidableEq

namespace Fault

abbrev fail {ε α : Type} (e : ε) : Except (Fault ε) α := .error (.error e)

/-- Stops unless the precondition holds. -/
def require {ε : Type} (b : Bool) : Except (Fault ε) Unit := if b then .ok () else .error .abort

/-- Stops where a value that must be there is missing. -/
def demand {ε α : Type} : Option α → Except (Fault ε) α
  | some a => .ok a
  | none => .error .abort

def map {ε ε' : Type} (f : ε → ε') : Fault ε → Fault ε'
  | error e => error (f e)
  | abort => abort

theorem ok_bind {ε α β : Type} (a : α) (f : α → Except (Fault ε) β) :
    Except.ok a >>= f = f a := rfl

@[simp] theorem demand_some {ε α : Type} (a : α) :
    (demand (some a) : Except (Fault ε) α) = .ok a := rfl

@[simp] theorem require_true {ε : Type} : (require true : Except (Fault ε) Unit) = .ok () := rfl

end Fault

end FlatImage
