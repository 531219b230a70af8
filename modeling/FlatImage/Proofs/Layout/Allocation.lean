import FlatImage.Layout.Allocator
import FlatImage.Proofs.Layout.Tiling

/-!
# Requests to an allocator

A request ends in one of three ways, which are told apart once. What a sequence of requests is
granted follows by induction on the sequence: ranges that lie one behind the other, from the first
block on and within the limit.

A request that does not fit changes nothing. One that fits, but starts at a block whose number needs
more than 32 bits, gets no start and moves the cursor all the same. The cursor never goes back, so
nothing is granted after that, and the answers are those of a sequence without such a request. With
a limit that the planner can set there are none.
-/

namespace FlatImage

/-- Ranges that lie one behind the other from a block on, and end within a limit. -/
structure Extent.Row (first limit : Nat) (extents : List Extent) : Prop where
  contiguous : ∃ last, Extent.Tiles first extents last
  disjoint : extents.Pairwise fun e e' => e.start + e.count ≤ e'.start
  within : ∀ e ∈ extents, e.start + e.count ≤ limit

namespace Allocator

variable {a : Allocator} {count : UInt64}

/-! ## One request -/

/-- The three ways in which a request ends: it does not fit, it is granted, or it fits and its first
block has no number of 32 bits. -/
inductive Answered (a : Allocator) (count : UInt64) : Option UInt32 × Allocator → Prop where
  | refused (past : a.limit.toNat < a.next.toNat + count.toNat) : Answered a count (none, a)
  | granted {start : UInt32} {next : UInt64} (first : start.toNat = a.next.toNat)
      (stop : next.toNat = a.next.toNat + count.toNat) (fits : next.toNat ≤ a.limit.toNat) :
      Answered a count (some start, { a with next })
  | strayed {next : UInt64} (wide : UInt32.size ≤ a.next.toNat)
      (stop : next.toNat = a.next.toNat + count.toNat) (fits : next.toNat ≤ a.limit.toNat) :
      Answered a count (none, { a with next })

theorem answered (a : Allocator) (count : UInt64) : Answered a count (a.allocate count) := by
  have limited := a.limit.toNat_lt
  simp only [allocate]
  by_cases past : a.limit.toNat < a.next.toNat + count.toNat
  · rw [if_pos (.inr past)]
    exact .refused past
  · have bound : a.next.toNat + count.toNat < UInt64.size := by
      simp only [UInt64.size]
      omega
    have stop := UInt64.toNat_ofNat_of_lt' bound
    have fits := Nat.le_trans (Nat.le_of_eq stop) (Nat.le_of_not_lt past)
    rw [if_neg (not_or.2 ⟨Nat.not_le.2 bound, past⟩)]
    by_cases small : a.next.toNat < UInt32.size
    · rw [if_pos small]
      have first : a.next.toUInt32.toNat = a.next.toNat := by
        rw [UInt64.toNat_toUInt32]
        exact Nat.mod_eq_of_lt small
      exact .granted first stop fits
    · rw [if_neg small]
      exact .strayed (Nat.le_of_not_lt small) stop fits

/-- What a request is answered and where it leaves the cursor, without wrap-around. -/
structure Exact (a : Allocator) (count : UInt64) : Prop where
  granted_iff (start : UInt32) : (a.allocate count).1 = some start
    ↔ start.toNat = a.next.toNat ∧ a.next.toNat + count.toNat ≤ a.limit.toNat
  next : (a.allocate count).2.next.toNat
    = a.next.toNat + if a.next.toNat + count.toNat ≤ a.limit.toNat then count.toNat else 0
  unchanged_iff : (a.allocate count).1 = none → ((a.allocate count).2 = a
    ↔ a.limit.toNat < a.next.toNat + count.toNat ∨ count = 0)
  unchanged : a.limit.toNat ≤ UInt32.size → (a.allocate count).1 = none → (a.allocate count).2 = a

/-- A cursor that went on by some blocks is where it was when there are none. -/
private theorem withNext_eq_iff {next : UInt64} (stop : next.toNat = a.next.toNat + count.toNat) :
    { a with next } = a ↔ count = 0 := by
  rcases a with ⟨cursor, limit⟩
  simp only [mk.injEq, and_true, ← UInt64.toNat_inj, stop, UInt64.toNat_zero]
  omega

theorem exact_allocate (a : Allocator) (count : UInt64) : Exact a count := by
  have ended := answered a count
  generalize answer : a.allocate count = result at ended
  cases ended with
  | refused past =>
    refine ⟨fun start => ?_, ?_, fun _ => ?_, fun _ _ => ?_⟩ <;> rw [answer]
    · exact iff_of_false nofun fun h => Nat.not_le.2 past h.2
    · rw [if_neg (Nat.not_le.2 past)]
      rfl
    · exact iff_of_true rfl (.inl past)
  | granted first stop fits =>
    rw [stop] at fits
    refine ⟨fun start => ?_, ?_, fun none => ?_, fun _ none => ?_⟩
    · rw [answer, Option.some.injEq, ← UInt32.toNat_inj, first]
      exact ⟨fun same => ⟨same.symm, fits⟩, fun h => h.1.symm⟩
    · rw [answer, if_pos fits]
      exact stop
    · rw [answer] at none
      cases none
    · rw [answer] at none
      cases none
  | strayed wide stop fits =>
    rw [stop] at fits
    have kept := withNext_eq_iff stop
    refine ⟨fun start => ?_, ?_, fun _ => ?_, fun small _ => ?_⟩ <;> rw [answer]
    · refine iff_of_false nofun fun h => Nat.not_lt.2 wide ?_
      rw [← h.1]
      exact start.toNat_lt
    · rw [if_pos fits]
      exact stop
    · exact kept.trans (or_iff_right (Nat.not_lt.2 fits)).symm
    · refine kept.2 (UInt64.toNat_inj.1 ?_)
      rw [UInt64.toNat_zero]
      omega

/-- The cursor never goes back. -/
theorem le_next (a : Allocator) (count : UInt64) :
    a.next.toNat ≤ (a.allocate count).2.next.toNat := by
  rw [(exact_allocate a count).next]
  exact Nat.le_add_right ..

/-! ## Sequences of requests -/

/-- The starts that are given to a sequence of requests. -/
def answers (a : Allocator) (counts : List UInt64) : List (Option UInt32) :=
  (a.allocateAll counts).map Prod.fst

/-- The ranges that a sequence of requests is granted, in the order of the requests. -/
def granted (a : Allocator) (counts : List UInt64) : List Extent :=
  (counts.zip (a.answers counts)).filterMap fun (count, start?) =>
    start?.map fun start => ⟨start.toNat, count.toNat⟩

theorem answers_cons (a : Allocator) (count : UInt64) (rest : List UInt64) :
    a.answers (count :: rest) = (a.allocate count).1 :: (a.allocate count).2.answers rest := rfl

theorem granted_cons_of_none {rest : List UInt64} {next : Allocator}
    (answer : a.allocate count = (none, next)) : a.granted (count :: rest) = next.granted rest := by
  rw [granted, answers_cons, answer]
  rfl

theorem granted_cons_of_some {rest : List UInt64} {start : UInt32} {next : Allocator}
    (answer : a.allocate count = (some start, next)) :
    a.granted (count :: rest) = ⟨start.toNat, count.toNat⟩ :: next.granted rest := by
  rw [granted, answers_cons, answer]
  rfl

/-- A cursor behind all 32-bit numbers stays behind them, and no request gets a start from there. -/
theorem answers_of_wide (wide : UInt32.size ≤ a.next.toNat) (counts : List UInt64) :
    a.answers counts = List.replicate counts.length none ∧ a.granted counts = [] := by
  induction counts generalizing a with
  | nil => exact ⟨rfl, rfl⟩
  | cons count rest ih =>
    obtain ⟨others, nothing⟩ := ih (Nat.le_trans wide (le_next a count))
    rcases answer : a.allocate count with ⟨start?, next⟩
    rw [answer] at others nothing
    cases start? with
    | none =>
      rw [answers_cons, answer]
      exact ⟨congrArg (none :: ·) others, (granted_cons_of_none answer).trans nothing⟩
    | some start =>
      have first := (((exact_allocate a count).granted_iff start).1 (congrArg Prod.fst answer)).1
      rw [← first] at wide
      exact absurd start.toNat_lt (Nat.not_lt.2 wide)

/-- What is granted lies one behind the other from the cursor on, and ends within the limit. -/
theorem row_granted (a : Allocator) (counts : List UInt64) :
    Extent.Row a.next.toNat a.limit.toNat (a.granted counts) := by
  have tiled : ∃ last, Extent.Tiles a.next.toNat (a.granted counts) last
      ∧ (a.granted counts = [] ∨ last ≤ a.limit.toNat) := by
    induction counts generalizing a with
    | nil => exact ⟨_, rfl, .inl rfl⟩
    | cons count rest ih =>
      have ended := answered a count
      generalize answer : a.allocate count = result at ended
      cases ended with
      | refused past =>
        rw [granted_cons_of_none answer]
        exact ih a
      | granted first stop fits =>
        rw [granted_cons_of_some answer]
        obtain ⟨last, behind, inside⟩ := ih { a with next := _ }
        refine ⟨last, ⟨first, stop ▸ behind⟩, .inr ?_⟩
        obtain none | inside := inside
        · rw [none] at behind
          exact Nat.le_trans (Nat.le_of_eq behind.symm) fits
        · exact inside
      | strayed wide _ _ =>
        rw [(answers_of_wide wide _).2]
        exact ⟨_, rfl, .inl rfl⟩
  obtain ⟨last, tiles, inside⟩ := tiled
  refine ⟨⟨last, tiles⟩, tiles.pairwise, fun e mem => ?_⟩
  obtain none | inside := inside
  · rw [none] at mem
    cases mem
  · exact Nat.le_trans (tiles.within mem).2 inside

/-- Without a request that got no start, the others are answered as they are with it. -/
theorem answers_eraseIdx {counts : List UInt64} {i : Nat}
    (failed : (a.answers counts)[i]? = some none) :
    a.answers (counts.eraseIdx i) = (a.answers counts).eraseIdx i := by
  induction counts generalizing a i with
  | nil => rfl
  | cons count rest ih =>
    cases i with
    | succ i => exact congrArg ((a.allocate count).1 :: ·) (ih failed)
    | zero =>
      have none : (a.allocate count).1 = none := Option.some.inj failed
      have onward := le_next a count
      have ended := answered a count
      rw [answers_cons, List.eraseIdx_cons_zero, List.eraseIdx_cons_zero]
      generalize a.allocate count = result at none onward ended
      cases ended with
      | refused past => rfl
      | granted first stop fits => cases none
      | strayed wide stop fits =>
        have moved := (answers_of_wide (Nat.le_trans wide onward) rest).1
        exact (answers_of_wide wide rest).1.trans moved.symm

/-- What a sequence of requests is granted lies one behind the other from the first block on, apart
and within the limit, and every request is granted exactly when it fits and its first block has a
number of 32 bits. One that gets no start changes no other answer. It leaves the next free block
where it is unless it fits and has blocks, and with a limit of 32 bits always. -/
theorem allocations_exact (first limit : UInt64) (counts : List UInt64) :
    Extent.Row first.toNat limit.toNat (granted ⟨first, limit⟩ counts)
      ∧ (∀ i : Nat, (answers ⟨first, limit⟩ counts)[i]? = some none →
        answers ⟨first, limit⟩ (counts.eraseIdx i)
          = (answers ⟨first, limit⟩ counts).eraseIdx i)
      ∧ ∀ a count, Exact a count :=
  ⟨row_granted ⟨first, limit⟩ counts, fun _ => answers_eraseIdx, exact_allocate⟩

/-- The middle one of three requests does not fit. -/
theorem allocations_exact_middle :
    granted ⟨1, 10⟩ [4, 6, 5] = [⟨1, 4⟩, ⟨5, 5⟩]
      ∧ answers ⟨1, 10⟩ [4, 5] = [some 1, some 5] := by
  have others := (allocations_exact 1 10 [4, 6, 5]).2.1 1 (by decide)
  exact ⟨rfl, others.trans (by decide)⟩

/-- One block fits behind all 32-bit numbers and gets no start, and it is gone afterwards. -/
theorem allocateAll_strayed :
    allocateAll ⟨4294967296, 8589934592⟩ [1] = [(none, 4294967297)] := by decide

end Allocator

end FlatImage
