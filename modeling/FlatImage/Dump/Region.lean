import FlatImage.Image.Tables
import FlatImage.Path

/-!
# The regions of an image

Every table that can be reached from the root claims its blocks, and so does every file that has
any. Two claims may not start at the same block: a table that can be reached twice is an error,
which is also why the search for regions ends. Claims that start at different blocks may overlap.
-/

namespace FlatImage.Dump

/-- What a region holds. -/
inductive Segment where
  | table (records : List Record)
  | data (record : Record)

/-- Blocks claimed by the entry at a path. -/
structure Region where
  start : UInt32
  count : UInt32
  path : Path
  segment : Segment

/-- One past the last block of a region. -/
def Region.stop (r : Region) : Nat := r.start.toNat + r.count.toNat

inductive DumpError where
  | image (e : ImageError)
  | claimedTwice (start : UInt32) (path : Path)
  deriving DecidableEq

def DumpError.message : DumpError → String
  | image e => e.message
  | claimedTwice start path => s!"block {start} is claimed twice (by {Quoted.ofBytes path})"

/-- The claims made so far, the last blocks first. No two of them start at the same block. -/
structure Claims where
  regions : List Region
  descending : regions.Pairwise fun a b => b.start < a.start

namespace Claims

/-- Puts a region where its start belongs, unless a region there starts at the same block. -/
def insert? (region : Region) : List Region → Option (List Region)
  | [] => some [region]
  | r :: rest =>
    if r.start < region.start then some (region :: r :: rest)
    else if r.start = region.start then none
    else (insert? region rest).map (r :: ·)

/-- Exactly the inserted region is new. -/
theorem mem_of_insert? {region : Region} {regions claimed : List Region}
    (h : insert? region regions = some claimed) (r : Region) :
    r ∈ claimed ↔ r = region ∨ r ∈ regions := by
  induction regions generalizing claimed with
  | nil =>
    obtain rfl := Option.some.inj h
    simp
  | cons first rest ih =>
    unfold insert? at h
    split at h
    · obtain rfl := Option.some.inj h
      simp
    · split at h
      · cases h
      · obtain ⟨others, hothers, rfl⟩ := Option.map_eq_some_iff.1 h
        simp only [List.mem_cons, ih hothers]
        exact ⟨fun h => by rcases h with h | h | h <;> simp [h],
          fun h => by rcases h with h | h | h <;> simp [h]⟩

theorem descending_of_insert? {region : Region} {regions claimed : List Region}
    (h : insert? region regions = some claimed)
    (sorted : regions.Pairwise fun a b => b.start < a.start) :
    claimed.Pairwise fun a b => b.start < a.start := by
  induction regions generalizing claimed with
  | nil =>
    obtain rfl := Option.some.inj h
    simp
  | cons first rest ih =>
    obtain ⟨below, sorted⟩ := List.pairwise_cons.1 sorted
    unfold insert? at h
    split at h
    · next lt =>
      obtain rfl := Option.some.inj h
      refine List.pairwise_cons.2 ⟨fun r hr => ?_, List.pairwise_cons.2 ⟨below, sorted⟩⟩
      rcases List.mem_cons.1 hr with rfl | hr
      · exact lt
      · exact UInt32.lt_trans (below r hr) lt
    · next nlt =>
      split at h
      · cases h
      · next ne =>
        obtain ⟨others, hothers, rfl⟩ := Option.map_eq_some_iff.1 h
        refine List.pairwise_cons.2 ⟨fun r hr => ?_, ih hothers sorted⟩
        rcases (mem_of_insert? hothers r).1 hr with rfl | hr
        · exact UInt32.lt_of_le_of_ne (UInt32.not_lt.1 nlt) (Ne.symm ne)
        · exact below r hr

/-- A region is only inserted where no other one starts. -/
theorem start_ne_of_insert? {region : Region} {regions claimed : List Region}
    (h : insert? region regions = some claimed)
    (sorted : regions.Pairwise fun a b => b.start < a.start) {r : Region} (hr : r ∈ regions) :
    r.start ≠ region.start := by
  induction regions generalizing claimed with
  | nil => simp at hr
  | cons first rest ih =>
    obtain ⟨below, sorted⟩ := List.pairwise_cons.1 sorted
    unfold insert? at h
    split at h
    · next lt =>
      rcases List.mem_cons.1 hr with rfl | hr
      · exact UInt32.ne_of_lt lt
      · exact UInt32.ne_of_lt (UInt32.lt_trans (below r hr) lt)
    · split at h
      · cases h
      · next ne =>
        obtain ⟨others, hothers, rfl⟩ := Option.map_eq_some_iff.1 h
        rcases List.mem_cons.1 hr with rfl | hr
        · exact ne
        · exact ih hothers sorted hr

def single (region : Region) : Claims := ⟨[region], by simp⟩

/-- Adds a region unless another one starts at the same block. -/
def claim? (region : Region) (claims : Claims) : Option Claims :=
  match h : insert? region claims.regions with
  | none => none
  | some regions => some ⟨regions, descending_of_insert? h claims.descending⟩

def startsAt (claims : Claims) (block : Nat) : Bool :=
  claims.regions.any fun r => r.start.toNat == block

theorem insert?_of_claim? {region : Region} {claims more : Claims}
    (h : claims.claim? region = some more) :
    insert? region claims.regions = some more.regions := by
  unfold claim? at h
  split at h
  · cases h
  · next found =>
    obtain rfl := Option.some.inj h
    exact found

theorem startsAt_of_claim? {region : Region} {claims more : Claims}
    (h : claims.claim? region = some more) (block : Nat) :
    more.startsAt block = (region.start.toNat == block || claims.startsAt block) := by
  have mem := mem_of_insert? (insert?_of_claim? h)
  rw [Bool.eq_iff_iff]
  simp only [startsAt, List.any_eq_true, Bool.or_eq_true, mem]
  constructor
  · rintro ⟨r, rfl | hr, hb⟩
    · exact .inl hb
    · exact .inr ⟨r, hr, hb⟩
  · rintro (hb | ⟨r, hr, hb⟩)
    · exact ⟨region, .inl rfl, hb⟩
    · exact ⟨r, .inr hr, hb⟩

theorem not_startsAt_of_claim? {region : Region} {claims more : Claims}
    (h : claims.claim? region = some more) : claims.startsAt region.start.toNat = false := by
  rw [Bool.eq_false_iff]
  intro found
  simp only [startsAt, List.any_eq_true, beq_iff_eq] at found
  obtain ⟨r, hr, hb⟩ := found
  exact start_ne_of_insert? (insert?_of_claim? h) claims.descending hr (UInt32.toNat_inj.1 hb)

end Claims

def claimAll (img : Image) (pending : List (Path × Record)) (claims : Claims) :
    Except (Fault DumpError) Claims :=
  match pending with
  | [] => .ok claims
  | (path, record) :: rest =>
    match Image.name record with
    | .error e => .error (e.map .image)
    | .ok name =>
      let here := Path.join path name
      if record.isDirectory then
        match _readable : img.directory record with
        | .error e => .error (e.map .image)
        | .ok records =>
          match _claimed : claims.claim? ⟨record.start, record.count, here, .table records⟩ with
          | none => Fault.fail (.claimedTwice record.start here)
          | some more => claimAll img (records.map (here, ·) ++ rest) more
      else if record.count = 0 then claimAll img rest claims
      else
        match img.fileData record with
        | .error e => .error (e.map .image)
        | .ok _ =>
          match _claimed : claims.claim? ⟨record.start, record.count, here, .data record⟩ with
          | none => Fault.fail (.claimedTwice record.start here)
          | some more => claimAll img rest more
termination_by
  (Image.unseen img.superblock.dataStart.toNat claims.startsAt, pending.length)
decreasing_by
  · apply Prod.Lex.left
    have more := Claims.startsAt_of_claim? _claimed
    exact Image.unseen_lt (Image.start_lt_of_directory _readable)
      (fun b hb => by rw [more, hb, Bool.or_true]) (Claims.not_startsAt_of_claim? _claimed)
      (by simp [more])
  · apply Prod.Lex.right
    simp
  · have more := Claims.startsAt_of_claim? _claimed
    apply Prod.Lex.right'
    · exact Image.unseen_le fun b hb => by rw [more, hb, Bool.or_true]
    · simp

def rootPath : Path := [Bytes.slash]

def rootRegion (img : Image) (records : List Record) : Region where
  start := img.superblock.rootTable
  count := UInt32.ofNat (Geometry.tableBlocks records.length img.blockSize.toNat)
  path := rootPath
  segment := .table records

/-- All regions of an image in ascending order of their starts. -/
def regions (img : Image) : Except (Fault DumpError) (List Region) :=
  match img.root with
  | .error e => .error (e.map .image)
  | .ok records =>
    (claimAll img (records.map (rootPath, ·)) (.single (rootRegion img records))).map
      (·.regions.reverse)

end FlatImage.Dump
