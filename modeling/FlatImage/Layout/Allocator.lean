/-!
# Handing out blocks

An allocator is a cursor over block numbers. It hands out ranges one after the other and never
takes one back. A request that would run past the limit, or past 64 bits, is refused and changes
nothing. A request that fits, but starts at a block whose number needs more than 32 bits, moves the
cursor although no start can be given for it.
-/

namespace FlatImage

/-- The next block to hand out, and the block that no range may extend past. -/
structure Allocator where
  next : UInt64
  limit : UInt64
  deriving DecidableEq

namespace Allocator

/-- Reserves `count` blocks and gives the first, and the allocator after that. -/
def allocate (a : Allocator) (count : UInt64) : Option UInt32 × Allocator :=
  let stop := a.next.toNat + count.toNat
  if UInt64.size ≤ stop ∨ a.limit.toNat < stop then (none, a)
  else
    (if a.next.toNat < UInt32.size then some a.next.toUInt32 else none,
      { a with next := UInt64.ofNat stop })

/-- The answers to a sequence of requests, each with the next free block after it. -/
def allocateAll : Allocator → List UInt64 → List (Option UInt32 × UInt64)
  | _, [] => []
  | a, count :: rest =>
    let (start, moved) := a.allocate count
    (start, moved.next) :: moved.allocateAll rest

end Allocator

end FlatImage
