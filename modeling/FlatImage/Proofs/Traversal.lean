import FlatImage.Proofs.Queries
import Mathlib.Data.List.Nodup
import Mathlib.Data.List.Perm.Subperm

/-!
# Going through the tables of an image

A traversal goes over the records of a table, and at a directory it first goes over the records of
that directory's table. Tables are entered one within the other here, up to a depth that is given
beforehand, and a `Tour` tells which tables were entered. A traversal that enters no table that it
has seen ends within a depth that the records do not decide: `Wary.exists_tour`. One that works
through a list of tasks instead does the same in the same order: `WorkedBy.run_walk`. From the
root's table of an opened image, as many levels are enough as there are blocks for tables:
`Image.exists_tour`.
-/

namespace FlatImage

/-- What a traversal does at a record. -/
inductive Look (σ κ ε : Type) where
  /-- It stops. -/
  | failed (e : ε) (s : σ)
  /-- It goes on with the record behind. -/
  | passed (s : σ)
  /-- It enters the table at a block, and goes on with the record behind when it is done there. -/
  | entered (start : UInt32) (records : List Record) (inner : κ) (s : σ)

/-- What is done at the record of a directory, and when the directory that a record stands for is
done. A traversal knows where it is, `κ`, and keeps a state, `σ`. -/
structure Traversal (σ κ ε : Type) where
  look : κ → Record → σ → Look σ κ ε
  leave : κ → Record → σ → Except ε Unit × σ

/-- The starts of the tables that were entered, in that order, and how it ended. -/
structure Tour (σ ε : Type) where
  entered : List UInt32
  result : Except ε Unit
  state : σ

/-- A tour that goes on after tables have been entered. -/
def Tour.after {σ ε : Type} (front : List UInt32) (tour : Tour σ ε) : Tour σ ε :=
  { tour with entered := front ++ tour.entered }

/-- What a tour hands on: its failure, or its state to whatever comes behind. -/
def Tour.finish {σ ε ρ : Type} (tour : Tour σ ε) (stop : ε → σ → ρ) (go : σ → ρ) : ρ :=
  match tour.result with
  | .error e => stop e tour.state
  | .ok () => go tour.state

/-- Which tables were entered before makes no difference to what is handed on. -/
theorem Tour.finish_after {σ ε ρ : Type} (front : List UInt32) (tour : Tour σ ε) (stop : ε → σ → ρ)
    (go : σ → ρ) : (tour.after front).finish stop go = tour.finish stop go := rfl

namespace Traversal

variable {σ κ ε : Type} (t : Traversal σ κ ε)

/-- The tour of a directory, from the tour of what is in it. -/
def close (start : UInt32) (inner : κ) (record : Record) (tour : Tour σ ε) : Tour σ ε :=
  match tour.result with
  | .error e => ⟨start :: tour.entered, .error e, tour.state⟩
  | .ok () =>
    let (result, s) := t.leave inner record tour.state
    ⟨start :: tour.entered, result, s⟩

/-- Goes over records, when it is known how to go over those of the tables that are entered. -/
def each (inside : κ → List Record → σ → Option (Tour σ ε)) (k : κ) :
    List Record → σ → Option (Tour σ ε)
  | [], s => some ⟨[], .ok (), s⟩
  | record :: rest, s =>
    match t.look k record s with
    | .failed e s => some ⟨[], .error e, s⟩
    | .passed s => each inside k rest s
    | .entered start records inner s =>
      match (inside inner records s).map (t.close start inner record) with
      | none => none
      | some tour =>
        tour.finish (fun _ _ => some tour) fun s =>
          (each inside k rest s).map (Tour.after tour.entered)

/-- Goes over the records of a table and of those that are entered from it, with at most `depth`
tables one within the other. There is no tour when that is not enough. -/
def walk : (depth : Nat) → κ → List Record → σ → Option (Tour σ ε)
  | 0 => fun _ _ _ => none
  | depth + 1 => t.each (walk depth)

end Traversal

variable {σ κ ε : Type} {bound : Nat} {seen : σ → Nat → Bool} {s s' : σ} {tour front : Tour σ ε}

/-! ## Tables that are entered once -/

/-- From a state, a tour has entered tables below a bound that had not been seen, and each of them
once. If it came to its end, these have been seen, and so has everything before. -/
structure Tour.Fresh (bound : Nat) (seen : σ → Nat → Bool) (s : σ) (tour : Tour σ ε) : Prop where
  new : ∀ start ∈ tour.entered, start.toNat < bound ∧ seen s start.toNat = false
  once : tour.entered.Nodup
  kept : tour.result = .ok () → ∀ b, seen s b → seen tour.state b
  marked : tour.result = .ok () → ∀ start ∈ tour.entered, seen tour.state start.toNat

namespace Tour.Fresh

theorem of_more (fresh : tour.Fresh bound seen s') (more : ∀ b, seen s b → seen s' b) :
    tour.Fresh bound seen s where
  new start mem := by
    obtain ⟨below, unseen⟩ := fresh.new start mem
    refine ⟨below, Bool.eq_false_iff.2 fun old => ?_⟩
    exact Bool.eq_false_iff.1 unseen (more _ old)
  once := fresh.once
  kept ok b old := fresh.kept ok b (more b old)
  marked := fresh.marked

theorem after (first : front.Fresh bound seen s) (ok : front.result = .ok ())
    (behind : tour.Fresh bound seen front.state) :
    (tour.after front.entered).Fresh bound seen s where
  new start mem := by
    obtain old | new := List.mem_append.1 mem
    · exact first.new start old
    · exact (behind.of_more (first.kept ok)).new start new
  once := by
    refine List.nodup_append.2 ⟨first.once, behind.once, ?_⟩
    rintro start mem _ mem' rfl
    exact Bool.eq_false_iff.1 (behind.new start mem').2 (first.marked ok start mem)
  kept ended b old := behind.kept ended b (first.kept ok b old)
  marked ended start mem := by
    obtain old | new := List.mem_append.1 mem
    · exact behind.kept ended _ (first.marked ok start old)
    · exact behind.marked ended start new

end Tour.Fresh

namespace Traversal

variable {t : Traversal σ κ ε} {k inner : κ} {record : Record} {records : List Record}
variable {start : UInt32} {e : ε}

/-- A traversal enters a table only when it starts below a bound and has not been seen, and sees it
then. Nothing that has been seen is forgotten. -/
structure Wary (t : Traversal σ κ ε) (bound : Nat) (seen : σ → Nat → Bool) : Prop where
  passed : ∀ {k record s s'}, t.look k record s = .passed s' → ∀ b, seen s b → seen s' b
  entered : ∀ {k record s start records inner s'},
    t.look k record s = .entered start records inner s' →
      start.toNat < bound ∧ seen s start.toNat = false ∧ seen s' start.toNat
        ∧ ∀ b, seen s b → seen s' b
  left : ∀ {inner record s s'}, t.leave inner record s = (.ok (), s') →
    ∀ b, seen s b → seen s' b

namespace Wary

/-- The tour of a directory enters one table more than the tour of what is in it. -/
theorem close (wary : t.Wary bound seen)
    (look : t.look k record s = .entered start records inner s')
    (below : tour.Fresh bound seen s') : (t.close start inner record tour).Fresh bound seen s := by
  obtain ⟨inside, unseen, marked, more⟩ := wary.entered look
  have new : ∀ x ∈ start :: tour.entered, x.toNat < bound ∧ seen s x.toNat = false :=
    List.forall_mem_cons.2 ⟨⟨inside, unseen⟩, (below.of_more more).new⟩
  have once : (start :: tour.entered).Nodup := by
    refine List.nodup_cons.2 ⟨fun again => ?_, below.once⟩
    exact Bool.eq_false_iff.1 (below.new start again).2 marked
  unfold Traversal.close
  split
  · exact ⟨new, once, nofun, nofun⟩
  · next ok =>
    cases left : t.leave inner record tour.state with
    | mk result s'' =>
      refine ⟨new, once, fun ended b old => ?_, fun ended x mem => ?_⟩
      · obtain rfl : result = .ok () := ended
        exact wary.left left b (below.kept ok b (more b old))
      · obtain rfl : result = .ok () := ended
        apply wary.left left
        obtain rfl | mem := List.mem_cons.1 mem
        · exact below.kept ok _ marked
        · exact below.marked ok x mem

/-- Over records, when all that is left unseen can be toured. -/
theorem exists_each (wary : t.Wary bound seen) {inside : κ → List Record → σ → Option (Tour σ ε)}
    {depth : Nat} (below : ∀ k records s, Image.unseen bound (seen s) < depth →
      ∃ tour, inside k records s = some tour ∧ tour.Fresh bound seen s)
    (enough : Image.unseen bound (seen s) < depth + 1) :
    ∃ tour, t.each inside k records s = some tour ∧ tour.Fresh bound seen s := by
  induction records generalizing s with
  | nil => exact ⟨_, rfl, nofun, .nil, fun _ _ old => old, nofun⟩
  | cons record rest ih =>
    rw [each]
    cases look : t.look k record s with
    | failed e s' => exact ⟨_, rfl, nofun, .nil, nofun, nofun⟩
    | passed s' =>
      have more := wary.passed look
      obtain ⟨tour, run, fresh⟩ := ih (Nat.lt_of_le_of_lt (Image.unseen_le more) enough)
      exact ⟨tour, run, fresh.of_more more⟩
    | entered start records inner s' =>
      -- The table is one that is seen no more, so a depth less is enough for it.
      obtain ⟨inside', unseen, marked, more⟩ := wary.entered look
      have fewer := Image.unseen_lt inside' more unseen marked
      obtain ⟨tour, run, fresh⟩ := below inner records s' (by omega)
      have closed := wary.close look fresh
      simp only [run, Option.map_some]
      generalize t.close start inner record tour = whole at closed
      unfold Tour.finish
      cases ended : whole.result with
      | error e => exact ⟨whole, rfl, closed⟩
      | ok =>
        have more := closed.kept ended
        obtain ⟨others, run', fresh'⟩ := ih (Nat.lt_of_le_of_lt (Image.unseen_le more) enough)
        exact ⟨_, by simp only [run', Option.map_some], closed.after ended fresh'⟩

/-- A traversal that enters no table twice ends, with no more tables one within the other than there
are blocks below the bound that have not been seen, and the one it starts with. -/
theorem exists_tour (wary : t.Wary bound seen) {depth : Nat} (records : List Record)
    (enough : Image.unseen bound (seen s) < depth) :
    ∃ tour, t.walk depth k records s = some tour ∧ tour.Fresh bound seen s := by
  induction depth generalizing k records s with
  | zero => exact absurd enough (Nat.not_lt_zero _)
  | succ depth ih => exact wary.exists_each (fun _ _ _ few => ih _ few) enough

end Wary

/-! ## Working through tasks -/

/-- A function works through a list of tasks, of which one stands for a record, as a traversal goes
over the records. What is to be done when a directory is done stands as tasks behind its records. -/
structure WorkedBy {τ ρ : Type} (t : Traversal σ κ ε) (run : List τ → σ → ρ)
    (task : κ → Record → τ) (back : κ → Record → List τ) (stop : ε → σ → ρ) : Prop where
  failed : ∀ {k record rest s e s'}, t.look k record s = .failed e s' →
    run (task k record :: rest) s = stop e s'
  passed : ∀ {k record rest s s'}, t.look k record s = .passed s' →
    run (task k record :: rest) s = run rest s'
  entered : ∀ {k record rest s start records inner s'},
    t.look k record s = .entered start records inner s' →
      run (task k record :: rest) s
        = run (records.map (task inner) ++ (back inner record ++ rest)) s'
  stopped : ∀ {inner record rest s e s'}, t.leave inner record s = (.error e, s') →
    run (back inner record ++ rest) s = stop e s'
  left : ∀ {inner record rest s s'}, t.leave inner record s = (.ok (), s') →
    run (back inner record ++ rest) s = run rest s'

namespace WorkedBy

variable {τ ρ : Type} {run : List τ → σ → ρ} {task : κ → Record → τ}
variable {back : κ → Record → List τ} {stop : ε → σ → ρ} {rest : List τ}

/-- The tasks behind a directory's records bring the tour of what is in it to that of the
directory. -/
theorem finish_close (worked : t.WorkedBy run task back stop) (start : UInt32) :
    tour.finish stop (run (back inner record ++ rest))
      = (t.close start inner record tour).finish stop (run rest) := by
  unfold Traversal.close Tour.finish
  cases tour.result with
  | error e => rfl
  | ok =>
    cases left : t.leave inner record tour.state with
    | mk result s' =>
      cases result with
      | error e => exact worked.stopped left
      | ok => exact worked.left left

theorem run_each (worked : t.WorkedBy run task back stop)
    {inside : κ → List Record → σ → Option (Tour σ ε)}
    (below : ∀ k records s tour, inside k records s = some tour → ∀ rest,
      run (records.map (task k) ++ rest) s = tour.finish stop (run rest))
    (walked : t.each inside k records s = some tour) (rest : List τ) :
    run (records.map (task k) ++ rest) s = tour.finish stop (run rest) := by
  induction records generalizing s tour with
  | nil =>
    obtain rfl := Option.some.inj walked
    rfl
  | cons record others ih =>
    rw [List.map_cons, List.cons_append]
    rw [each] at walked
    cases look : t.look k record s with
    | failed e s' =>
      rw [look] at walked
      obtain rfl := Option.some.inj walked
      exact worked.failed look
    | passed s' =>
      rw [look] at walked
      rw [worked.passed look]
      exact ih walked
    | entered start records inner s' =>
      rw [look] at walked
      rw [worked.entered look]
      cases first : inside inner records s' with
      | none =>
        simp only [first, Option.map_none] at walked
        cases walked
      | some within =>
        rw [below _ _ _ _ first, worked.finish_close start]
        simp only [first, Option.map_some] at walked
        generalize t.close start inner record within = whole at walked ⊢
        cases whole with
        | mk entered result s'' =>
          cases result with
          | error e =>
            obtain rfl := Option.some.inj walked
            rfl
          | ok =>
            obtain ⟨last, behind, rfl⟩ := Option.map_eq_some_iff.1 walked
            rw [Tour.finish_after]
            exact ih behind

/-- Working through the tasks of a table's records comes to what the tour of the table comes to. -/
theorem run_walk (worked : t.WorkedBy run task back stop) {depth : Nat}
    (walked : t.walk depth k records s = some tour) (rest : List τ) :
    run (records.map (task k) ++ rest) s = tour.finish stop (run rest) := by
  induction depth generalizing k records s tour rest with
  | zero => cases walked
  | succ depth ih => exact worked.run_each (fun _ _ _ _ walked rest => ih walked rest) walked rest

end WorkedBy

end Traversal

/-! ## From the root's table -/

namespace Image

variable {bytes : ByteArray} {img : Image}

/-- The block of the header counts as seen, too. -/
def withHeader (seen : Nat → Bool) (block : Nat) : Bool := block == 0 || seen block

/-- The tables that were entered from the root's: the root's is not among them, none is there twice,
and all of them start in the blocks for tables. So these blocks are as many at least. -/
structure Entered (img : Image) (starts : List UInt32) : Prop where
  once : (img.superblock.rootTable :: starts).Nodup
  inside : ∀ start ∈ img.superblock.rootTable :: starts,
    1 ≤ start.toNat ∧ start.toNat ≤ img.superblock.metaBlocks.toNat
  few : (img.superblock.rootTable :: starts).length ≤ img.superblock.metaBlocks.toNat

variable {seen seen' : Nat → Bool} {bound block : Nat}

theorem withHeader_mono (more : ∀ b, seen b → seen' b) :
    ∀ b, withHeader seen b → withHeader seen' b := by
  intro b old
  simp only [withHeader, Bool.or_eq_true] at old ⊢
  exact old.imp id (more b)

theorem withHeader_of_pos (pos : 1 ≤ block) : withHeader seen block = seen block := by
  have other : (block == 0) = false := beq_eq_false_iff_ne.2 (Nat.ne_of_gt pos)
  rw [withHeader, other, Bool.false_or]

/-- Once the root's table has been seen, two blocks are not left: its first one and the header's. -/
theorem unseen_withHeader (behind : 1 ≤ block) (before : block < bound) (marked : seen block) :
    unseen bound (withHeader seen) + 2 ≤ bound := by
  have all : unseen bound (fun _ => false) = bound := by simp [unseen]
  have header : unseen bound (withHeader fun _ => false) < unseen bound (fun _ => false) :=
    unseen_lt (Nat.lt_of_lt_of_le behind (Nat.le_of_lt before)) (fun _ => nofun) rfl rfl
  have root : unseen bound (withHeader seen) < unseen bound (withHeader fun _ => false) :=
    unseen_lt before (withHeader_mono fun _ => nofun) (withHeader_of_pos behind)
      ((withHeader_of_pos behind).trans marked)
  omega

theorem Entered.of_inside {starts : List UInt32}
    (once : (img.superblock.rootTable :: starts).Nodup)
    (inside : ∀ start ∈ img.superblock.rootTable :: starts,
      1 ≤ start.toNat ∧ start.toNat ≤ img.superblock.metaBlocks.toNat) : img.Entered starts := by
  refine ⟨once, inside, ?_⟩
  have numbers : ((img.superblock.rootTable :: starts).map UInt32.toNat).Nodup :=
    List.Nodup.map (fun _ _ => UInt32.toNat_inj.1) once
  have among : (img.superblock.rootTable :: starts).map UInt32.toNat
      ⊆ List.range' 1 img.superblock.metaBlocks.toNat := by
    intro number mem
    obtain ⟨start, stands, rfl⟩ := List.mem_map.1 mem
    obtain ⟨behind, within⟩ := inside start stands
    exact List.mem_range'_1.2 ⟨behind, by omega⟩
  have few := (List.subperm_of_subset numbers among).length_le
  rwa [List.length_map, List.length_range'] at few

/-- The root's table of an opened image starts in the blocks for tables. -/
theorem rootTable_inside (opened : ofBytes bytes = .ok img) :
    1 ≤ img.superblock.rootTable.toNat
      ∧ img.superblock.rootTable.toNat < img.superblock.dataStart.toNat := by
  have regions := regions_of_ofBytes opened
  have one := Geometry.one_le_tableBlocks img.superblock.rootEntries.toNat img.blockSize.toNat
  exact ⟨regions.rootTable, by have := regions.rootTable_le; omega⟩

/-- From the root's table, a depth of as many tables as there are blocks for them is enough. -/
theorem exists_tour {σ κ ε : Type} {t : Traversal σ κ ε} {seen : σ → Nat → Bool} {k : κ} {s : σ}
    (opened : ofBytes bytes = .ok img)
    (wary : t.Wary img.superblock.dataStart.toNat fun s => withHeader (seen s))
    (marked : seen s img.superblock.rootTable.toNat) (records : List Record) :
    ∃ tour, t.walk img.superblock.metaBlocks.toNat k records s = some tour
      ∧ img.Entered tour.entered := by
  have start := (regions_of_ofBytes opened).dataStart
  obtain ⟨behind, before⟩ := rootTable_inside opened
  have left := unseen_withHeader behind before marked
  have enough : unseen img.superblock.dataStart.toNat (withHeader (seen s))
      < img.superblock.metaBlocks.toNat := by omega
  obtain ⟨tour, walked, fresh⟩ := wary.exists_tour (k := k) records enough
  refine ⟨tour, walked, .of_inside (List.nodup_cons.2 ⟨fun mem => ?_, fresh.once⟩)
    (List.forall_mem_cons.2 ⟨⟨behind, by omega⟩, fun x mem => ?_⟩)⟩
  · have unseen := (fresh.new _ mem).2
    rw [withHeader_of_pos behind, marked] at unseen
    cases unseen
  · obtain ⟨below, unseen⟩ := fresh.new x mem
    have pos : x.toNat ≠ 0 := by
      intro zero
      rw [zero] at unseen
      cases unseen
    omega

theorem inside_of_directory (valid : img.Valid) {record : Record} {records : List Record}
    (readable : img.directory record = .ok records) :
    1 ≤ record.start.toNat ∧ record.start.toNat < img.superblock.dataStart.toNat := by
  obtain ⟨directory, _⟩ := (decided_directory valid record).of_ok readable
  exact ⟨directory.table.behind, start_lt_of_directory readable⟩

end Image

end FlatImage
