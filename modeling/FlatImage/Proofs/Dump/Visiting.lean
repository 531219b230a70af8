import FlatImage.Proofs.Dump.Success
import FlatImage.Proofs.Traversal

/-!
# The search for regions ends

The search for regions goes over the records of an image as a `Traversal` does. It enters a table
when it has claimed its blocks, and no table whose first block was claimed before. So it is a tour
from the root's table: `exists_tour`. No number that a dump computes from the regions it finds
leaves its type: `inRange`.
-/

namespace FlatImage.Dump

variable {bytes : ByteArray} {img : Image}

/-- What the search for regions does at a record. -/
def look (img : Image) (path : Path) (record : Record) (claims : Claims) :
    Look Claims Path (Fault DumpError) :=
  match Image.name record with
  | .error e => .failed (e.map .image) claims
  | .ok name =>
    let here := Path.join path name
    let claim segment := claims.claim? ⟨record.start, record.count, here, segment⟩
    let twice := .failed (.error (.claimedTwice record.start here)) claims
    if record.isDirectory then
      match img.directory record with
      | .error e => .failed (e.map .image) claims
      | .ok records =>
        match claim (.table records) with
        | none => twice
        | some more => .entered record.start records here more
    else if record.count = 0 then .passed claims
    else
      match img.fileData record with
      | .error e => .failed (e.map .image) claims
      | .ok _ =>
        match claim (.data record) with
        | none => twice
        | some more => .passed more

/-- The search for regions as a traversal, which has nothing to do when a directory is done. -/
def visitor (img : Image) : Traversal Claims Path (Fault DumpError) where
  look := look img
  leave _ _ claims := (.ok (), claims)

variable {path : Path} {record : Record} {records : List Record} {claims more : Claims}
variable {rest : List (Path × Record)}

theorem claimAll_cons : claimAll img ((path, record) :: rest) claims
    = match look img path record claims with
      | .failed e _ => .error e
      | .passed more => claimAll img rest more
      | .entered _ records inner more => claimAll img (records.map (inner, ·) ++ rest) more := by
  rw [claimAll, look]
  cases Image.name record with
  | error e => rfl
  | ok name =>
    dsimp only
    split
    · split
      · next failed => rw [failed]
      · next readable =>
        rw [readable]
        dsimp only
        split
        · next refused => rw [refused]
        · next made => rw [made]
    · split
      · rfl
      · cases img.fileData record with
        | error e => rfl
        | ok data =>
          dsimp only
          split
          · next refused => rw [refused]
          · next made => rw [made]

theorem workedBy_claimAll (img : Image) : (visitor img).WorkedBy (claimAll img) Prod.mk
    (fun _ _ => []) (fun e _ => .error e) where
  failed looked := by
    rw [claimAll_cons, show look img _ _ _ = _ from looked]
  passed looked := by
    rw [claimAll_cons, show look img _ _ _ = _ from looked]
  entered looked := by
    rw [claimAll_cons, show look img _ _ _ = _ from looked]
    rfl
  stopped := nofun
  left left := by
    cases left
    rfl

/-- A record that is passed has claimed its blocks, if it has any. -/
theorem of_look_passed (looked : look img path record claims = .passed more) :
    more = claims ∨ ∃ region, claims.claim? region = some more := by
  unfold look at looked
  dsimp only at looked
  split at looked
  · cases looked
  · split at looked
    · split at looked
      · cases looked
      · split at looked <;> cases looked
    · split at looked
      · cases looked
        exact .inl rfl
      · split at looked
        · cases looked
        · split at looked
          · cases looked
          · next claimed =>
            cases looked
            exact .inr ⟨_, claimed⟩

/-- A table is entered once its blocks have been claimed. -/
theorem of_look_entered {start : UInt32} {inner : Path}
    (looked : look img path record claims = .entered start records inner more) :
    img.directory record = .ok records ∧ ∃ region, claims.claim? region = some more
      ∧ region.start = record.start ∧ start = record.start := by
  unfold look at looked
  dsimp only at looked
  split at looked
  · cases looked
  · split at looked
    · split at looked
      · cases looked
      · next readable =>
        split at looked
        · cases looked
        · next claimed =>
          cases looked
          exact ⟨readable, _, claimed, rfl, rfl⟩
    · split at looked
      · cases looked
      · split at looked
        · cases looked
        · split at looked <;> cases looked

theorem startsAt_mono {region : Region} (claimed : claims.claim? region = some more) :
    ∀ b, claims.startsAt b → more.startsAt b := by
  intro b old
  rw [Claims.startsAt_of_claim? claimed, old, Bool.or_true]

/-- The search enters no table whose first block has been claimed. -/
theorem wary_visitor (valid : img.Valid) : (visitor img).Wary img.superblock.dataStart.toNat
    fun claims => Image.withHeader claims.startsAt where
  passed looked := by
    obtain rfl | ⟨region, claimed⟩ := of_look_passed looked
    · exact fun _ old => old
    · exact Image.withHeader_mono (startsAt_mono claimed)
  entered looked := by
    obtain ⟨readable, region, claimed, starts, rfl⟩ := of_look_entered looked
    obtain ⟨behind, before⟩ := Image.inside_of_directory valid readable
    have new := Claims.not_startsAt_of_claim? claimed
    have marked := Claims.startsAt_of_claim? claimed region.start.toNat
    rw [starts] at new marked
    refine ⟨before, ?_, ?_, Image.withHeader_mono (startsAt_mono claimed)⟩
    · rw [Image.withHeader_of_pos behind, new]
    · rw [Image.withHeader_of_pos behind, marked, beq_self_eq_true, Bool.true_or]
  left left := by
    cases left
    exact fun _ old => old

/-- The search for regions is a tour from the root's table. -/
theorem exists_tour (opened : Image.ofBytes bytes = .ok img) {records : List Record}
    (root : img.root = .ok records) :
    ∃ tour, (visitor img).walk img.superblock.metaBlocks.toNat rootPath records
        (.single (rootRegion img records)) = some tour
      ∧ img.Entered tour.entered
      ∧ regions img
        = tour.finish (fun e _ => .error e) fun claims => .ok claims.regions.reverse := by
  have valid := (Image.opened_of_ofBytes opened).toValid
  have marked : (Claims.single (rootRegion img records)).startsAt
      img.superblock.rootTable.toNat := by
    simp [Claims.startsAt, Claims.single, rootRegion]
  obtain ⟨tour, walked, entered⟩ := Image.exists_tour (k := rootPath) opened
    (wary_visitor valid) marked records
  refine ⟨tour, walked, entered, ?_⟩
  have run := (workedBy_claimAll img).run_walk walked []
  rw [List.append_nil] at run
  rw [regions, root]
  dsimp only
  rw [run]
  unfold Tour.finish
  cases tour.result with
  | error e => rfl
  | ok =>
    rw [claimAll]
    rfl

/-! ## Numbers -/

/-- No number that a dump computes from regions leaves its type: the block behind a region has a
number of 32 bits, so have both ends of a gap, which does not end before it starts, and no more of a
region is used than there is. -/
structure InRange (img : Image) (found : List Region) : Prop where
  stop : ∀ r ∈ found, r.start.toNat + r.count.toNat < UInt32.size
  gap : ∀ next start, .gap next start ∈ findings img found → next ≤ start ∧ start < UInt32.size
  padding : ∀ r ∈ found, r.used ≤ r.length img.blockSize.toNat

theorem gap_mem_before {cursor next start block : Nat} :
    .gap next block ∈ Finding.before cursor start
      ↔ cursor < start ∧ next = cursor ∧ block = start := by
  unfold Finding.before
  rcases Nat.lt_trichotomy cursor start with lt | rfl | lt
  · simp [lt]
  · simp
  · simp [lt, Nat.not_lt_of_gt lt]

/-- A gap reaches up to a region. -/
theorem of_gap_mem_sweep {cursor total next start : Nat} {regions : List Region}
    (mem : .gap next start ∈ sweep cursor total regions) :
    next ≤ start ∧ start < UInt32.size := by
  induction regions generalizing cursor with
  | nil =>
    rw [sweep] at mem
    split at mem
    · cases List.mem_singleton.1 mem
    · cases mem
  | cons r rest ih =>
    rw [sweep] at mem
    obtain before | mem := List.mem_append.1 mem
    · obtain ⟨lt, rfl, rfl⟩ := gap_mem_before.1 before
      exact ⟨Nat.le_of_lt lt, r.start.toNat_lt⟩
    · obtain is | behind := List.mem_cons.1 mem
      · cases is
      · exact ih behind

theorem inRange (opened : Image.ofBytes bytes = .ok img) {found : List Region}
    (listed : regions img = .ok found) : InRange img found := by
  obtain ⟨claimed, all, perm, ascending⟩ := claimed_of_regions listed
  have success : Success bytes img claimed found := ⟨opened, listed, all, perm, ascending⟩
  exact ⟨fun r mem => (success.found_within r mem).stop_lt, fun _ _ => of_gap_mem_sweep,
    fun r mem => (success.found_within r mem).fits⟩

end FlatImage.Dump
