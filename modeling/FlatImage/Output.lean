import FlatImage.Blob
import FlatImage.IoError

/-!
# Destinations of an image

An image is written through three calls: put bytes at an offset, set the length, flush. Any call
may be refused, and a refused call changes nothing but the record of calls. Which calls are refused
is part of the destination and may depend on all calls before, so a statement about every
destination covers every pattern of failures.

Destinations in memory and files take the same calls and differ in one point: bytes in memory grow
up to the offset of a write of no bytes, and a file does not.
-/

namespace FlatImage

inductive Output.Call where
  | write (offset length : Nat)
  | setLength (length : Nat)
  | flush
  deriving DecidableEq

/-- A destination: its bytes, the calls made so far in order, and what it refuses. -/
structure Output where
  content : Blob
  calls : Array Output.Call
  refuses : Array Output.Call → Output.Call → Option IoError
  /-- A write of no bytes beyond the end makes the destination longer. -/
  stretches : Bool := true

namespace Output

/-- A destination in memory. It accepts every call. -/
def accepting (content : Blob) : Output := { content, calls := #[], refuses := fun _ _ => none }

/-- An empty file. -/
def file (refuses : Array Call → Call → Option IoError) : Output :=
  { content := .hole 0, calls := #[], refuses, stretches := false }

/-- Records a call, and lets it change the bytes unless it is refused. -/
def perform (o : Output) (call : Call) (change : Blob → Blob) :
    Except IoError Unit × Output :=
  let ⟨content, calls, refuses, stretches⟩ := o
  match refuses calls call with
  | some e => (.error e, ⟨content, calls.push call, refuses, stretches⟩)
  | none => (.ok (), ⟨change content, calls.push call, refuses, stretches⟩)

def write (o : Output) (offset : Nat) (bytes : Blob) : Except IoError Unit × Output :=
  let lasting := o.stretches || bytes.size != 0
  o.perform (.write offset bytes.size) fun content =>
    if lasting then content.overwrite offset bytes else content

/-- Cuts the bytes, or fills them up with zeros. -/
def setLength (o : Output) (length : Nat) : Except IoError Unit × Output :=
  o.perform (.setLength length) (Blob.resize · length)

def flush (o : Output) : Except IoError Unit × Output := o.perform .flush id

/-- A rule of refusal in four numbers: which write, which change of length and which flush is
refused, counted from zero, and how many bytes there is room for. -/
structure Limits where
  failWrite : Option Nat := none
  failSetLength : Option Nat := none
  failFlush : Option Nat := none
  capacity : Option Nat := none

namespace Call

def sameKind : Call → Call → Bool
  | .write .., .write .. => true
  | .setLength .., .setLength .. => true
  | .flush, .flush => true
  | _, _ => false

/-- The end of what a call touches. -/
def stop : Call → Nat
  | .write offset length => offset + length
  | .setLength length => length
  | .flush => 0

end Call

namespace Limits

/-- The number of the call of this kind that is refused. -/
def failing (l : Limits) : Call → Option Nat
  | .write .. => l.failWrite
  | .setLength .. => l.failSetLength
  | .flush => l.failFlush

/-- As many calls of the kind came before as the number says. They are counted only when there were
enough calls. -/
def failsAt (l : Limits) (earlier : Array Call) (call : Call) : Bool :=
  match l.failing call with
  | some n => n ≤ earlier.size && earlier.countP call.sameKind == n
  | none => false

def refuses (l : Limits) (earlier : Array Call) (call : Call) : Option IoError :=
  if l.failsAt earlier call then
    some (.described s!"call {earlier.countP call.sameKind} rejected")
  else match l.capacity with
    | some capacity =>
      if capacity < call.stop then some (.described "no space left on device") else none
    | none => none

end Limits

/-- A destination with some bytes and a rule in numbers. -/
def limited (content : Blob) (limits : Limits) : Output :=
  { content, calls := #[], refuses := limits.refuses }

end Output

end FlatImage
