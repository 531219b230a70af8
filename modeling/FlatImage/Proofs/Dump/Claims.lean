import FlatImage.Dump.Region

/-!
# What an image claims

The search for regions goes through a list of pending records. What it has claimed at its end is
stated here without that list and without an order, as the records of a table and the tables below
them say it: `Image.Claims`. The search succeeds exactly when everything can be read and no two
claims start at the same block, and then it gives the claims in the order of their starts:
`regions_eq_ok_iff`.
-/

namespace FlatImage.Dump

/-- The regions that pending records and everything below them claim, in pre-order. Everything on
the way can be read. -/
inductive Listed (img : Image) : List (Path × Record) → List Region → Prop where
  | nil : Listed img [] []
  | directory {path record name records rest inner others} (named : Image.name record = .ok name)
      (is : record.isDirectory) (readable : img.directory record = .ok records)
      (below : Listed img (records.map (Path.join path name, ·)) inner)
      (behind : Listed img rest others) :
      Listed img ((path, record) :: rest)
        (⟨record.start, record.count, Path.join path name, .table records⟩ :: inner ++ others)
  | empty {path record name rest others} (named : Image.name record = .ok name)
      (is : ¬ record.isDirectory) (none : record.count = 0) (behind : Listed img rest others) :
      Listed img ((path, record) :: rest) others
  | file {path record name rest others data} (named : Image.name record = .ok name)
      (is : ¬ record.isDirectory) (some : record.count ≠ 0)
      (readable : img.fileData record = .ok data) (behind : Listed img rest others) :
      Listed img ((path, record) :: rest)
        (⟨record.start, record.count, Path.join path name, .data record⟩ :: others)

/-- The regions that an image claims: that of the root's table, and those of everything below. -/
def Claimed (img : Image) (claimed : List Region) : Prop :=
  ∃ records inner, img.root = .ok records
    ∧ Listed img (records.map (rootPath, ·)) inner ∧ claimed = rootRegion img records :: inner

variable {img : Image} {claims more : Claims} {region : Region} {path : Path} {record : Record}
variable {name : Bytes} {records : List Record} {pending rest : List (Path × Record)}
variable {claimed others : List Region}

/-! ## One claim -/

namespace Claims

theorem perm_of_insert? {claimed regions : List Region}
    (h : insert? region regions = some claimed) : claimed.Perm (region :: regions) := by
  induction regions generalizing claimed with
  | nil =>
    obtain rfl := Option.some.inj h
    exact .refl _
  | cons first rest ih =>
    unfold insert? at h
    split at h
    · obtain rfl := Option.some.inj h
      exact .refl _
    · split at h
      · cases h
      · obtain ⟨others, inserted, rfl⟩ := Option.map_eq_some_iff.1 h
        exact ((ih inserted).cons first).trans (.swap region first rest)

theorem exists_insert? {regions : List Region} (fresh : ∀ r ∈ regions, r.start ≠ region.start) :
    ∃ claimed, insert? region regions = some claimed := by
  induction regions with
  | nil => exact ⟨_, rfl⟩
  | cons first rest ih =>
    obtain ⟨own, fresh⟩ := List.forall_mem_cons.1 fresh
    unfold insert?
    split
    · exact ⟨_, rfl⟩
    · obtain ⟨claimed, inserted⟩ := ih fresh
      exact ⟨_, by rw [inserted]; rfl⟩

theorem perm_of_claim? (h : claims.claim? region = some more) :
    more.regions.Perm (region :: claims.regions) := perm_of_insert? (insert?_of_claim? h)

theorem exists_claim? (fresh : ∀ r ∈ claims.regions, r.start ≠ region.start) :
    ∃ more, claims.claim? region = some more := by
  obtain ⟨claimed, inserted⟩ := exists_insert? fresh
  unfold claim?
  split
  · next none =>
    cases inserted.symm.trans none
  · exact ⟨_, rfl⟩

end Claims

/-! ## What is listed for several records -/

namespace Listed

theorem append (front : Listed img pending claimed) (back : Listed img rest others) :
    Listed img (pending ++ rest) (claimed ++ others) := by
  induction front with
  | nil => exact back
  | directory named is readable below _ _ ih =>
    rw [List.cons_append, List.cons_append, List.cons_append, List.append_assoc]
    exact .directory named is readable below ih
  | empty named is none _ ih => exact .empty named is none ih
  | file named is some readable _ ih => exact .file named is some readable ih

/-- What is listed for several records is listed for the first of them, and then for the others. -/
theorem split (h : Listed img (pending ++ rest) claimed) :
    ∃ first others, Listed img pending first ∧ Listed img rest others
      ∧ claimed = first ++ others := by
  induction pending generalizing claimed with
  | nil => exact ⟨[], claimed, .nil, h, rfl⟩
  | cons pair pending ih =>
    cases h with
    | directory named is readable below behind =>
      obtain ⟨first, others, front, back, rfl⟩ := ih behind
      exact ⟨_, others, .directory named is readable below front, back, by simp⟩
    | empty named is none behind =>
      obtain ⟨first, others, front, back, rfl⟩ := ih behind
      exact ⟨first, others, .empty named is none front, back, rfl⟩
    | file named is some readable behind =>
      obtain ⟨first, others, front, back, rfl⟩ := ih behind
      exact ⟨_, others, .file named is some readable front, back, rfl⟩

end Listed

/-! ## The search -/

theorem claimAll_directory (named : Image.name record = .ok name) (is : record.isDirectory)
    (readable : img.directory record = .ok records)
    (claim : claims.claim? ⟨record.start, record.count, Path.join path name, .table records⟩
      = some more) : claimAll img ((path, record) :: rest) claims
        = claimAll img (records.map (Path.join path name, ·) ++ rest) more := by
  rw [claimAll]
  simp only [named, is, if_true]
  split
  · next failed => cases readable.symm.trans failed
  · next found =>
    obtain rfl := Except.ok.inj (readable.symm.trans found)
    split
    · next refused => cases claim.symm.trans refused
    · next made =>
      obtain rfl := Option.some.inj (claim.symm.trans made)
      rfl

theorem claimAll_empty (named : Image.name record = .ok name) (is : ¬ record.isDirectory)
    (none : record.count = 0) :
    claimAll img ((path, record) :: rest) claims = claimAll img rest claims := by
  rw [claimAll]
  simp only [named, if_neg is, if_pos none]

theorem claimAll_file {data : ByteArray} (named : Image.name record = .ok name)
    (is : ¬ record.isDirectory) (some : record.count ≠ 0)
    (readable : img.fileData record = .ok data)
    (claim : claims.claim? ⟨record.start, record.count, Path.join path name, .data record⟩
      = .some more) :
    claimAll img ((path, record) :: rest) claims = claimAll img rest more := by
  rw [claimAll]
  simp only [named, if_neg is, if_neg some, readable]
  split
  · next refused => cases claim.symm.trans refused
  · next made =>
    obtain rfl := Option.some.inj (claim.symm.trans made)
    rfl

/-- The starts of regions that are to be claimed, all different and not claimed before. -/
def Fresh (claimed : List Region) (claims : Claims) : Prop :=
  ((claimed ++ claims.regions).map Region.start).Nodup

theorem Fresh.exists_claim? (fresh : Fresh (region :: claimed) claims) :
    ∃ more, claims.claim? region = some more ∧ Fresh claimed more
      ∧ (claimed ++ more.regions).Perm (region :: claimed ++ claims.regions) := by
  have own : ∀ r ∈ claims.regions, r.start ≠ region.start := by
    intro r mem same
    refine (List.nodup_cons.1 fresh).1 (List.mem_map.2 ⟨r, List.mem_append_right _ mem, same⟩)
  obtain ⟨more, claim⟩ := Claims.exists_claim? own
  have perm : (claimed ++ more.regions).Perm (region :: claimed ++ claims.regions) :=
    ((Claims.perm_of_claim? claim).append_left claimed).trans List.perm_middle
  exact ⟨more, claim, (perm.map Region.start).nodup_iff.2 fresh, perm⟩

theorem Fresh.of_append_left (fresh : Fresh (claimed ++ others) claims) :
    Fresh claimed claims := by
  unfold Fresh at *
  refine fresh.sublist (List.Sublist.map _ ?_)
  rw [List.append_assoc]
  exact (List.sublist_append_right others _).append_left claimed

theorem append_perm (made : more.regions.Perm (claimed ++ claims.regions)) :
    (others ++ more.regions).Perm (claimed ++ others ++ claims.regions) := by
  refine (made.append_left others).trans ?_
  rw [← List.append_assoc]
  exact List.perm_append_comm.append_right _

/-- What is claimed first does not stand in the way of what is claimed afterwards. -/
theorem Fresh.of_append_right (fresh : Fresh (claimed ++ others) claims)
    (made : more.regions.Perm (claimed ++ claims.regions)) : Fresh others more :=
  ((append_perm made).map Region.start).nodup_iff.2 fresh

/-- What is listed and starts at blocks of its own is claimed. -/
theorem claimAll_of_listed (listed : Listed img pending claimed) (fresh : Fresh claimed claims)
    (rest : List (Path × Record)) : ∃ more, claimAll img (pending ++ rest) claims
      = claimAll img rest more ∧ more.regions.Perm (claimed ++ claims.regions) := by
  induction listed generalizing claims rest with
  | nil => exact ⟨claims, rfl, .refl _⟩
  | @directory path record name records pending inner others named is readable _ _ below behind =>
    -- The directory's own region, then those below it, then those behind it.
    rw [List.cons_append] at fresh
    obtain ⟨first, claim, fresh, perm⟩ := fresh.exists_claim?
    obtain ⟨second, run, perm'⟩ := below (fresh.of_append_left) (pending ++ rest)
    obtain ⟨more, run', perm''⟩ := behind (fresh.of_append_right perm') rest
    refine ⟨more, ?_, ?_⟩
    · rw [List.cons_append, claimAll_directory named is readable claim]
      exact run.trans run'
    · exact perm''.trans ((append_perm perm').trans perm)
  | empty named is none _ ih =>
    obtain ⟨more, run, perm⟩ := ih fresh rest
    exact ⟨more, (claimAll_empty named is none).trans run, perm⟩
  | file named is some readable _ ih =>
    obtain ⟨more, claim, fresh, perm⟩ := fresh.exists_claim?
    obtain ⟨last, run, perm'⟩ := ih fresh rest
    exact ⟨last, (claimAll_file named is some readable claim).trans run, perm'.trans perm⟩

/-- A search that ends well has claimed what is listed. -/
theorem listed_of_claimAll (run : claimAll img pending claims = .ok more) :
    ∃ claimed, Listed img pending claimed ∧ more.regions.Perm (claimed ++ claims.regions) := by
  fun_induction claimAll img pending claims with
  | case1 claims =>
    cases run
    exact ⟨[], .nil, .refl _⟩
  | case5 claims path record rest name named here is records readable first claim ih =>
    obtain ⟨claimed, listed, perm⟩ := ih run
    obtain ⟨inner, others, below, behind, rfl⟩ := listed.split
    refine ⟨_, .directory named is readable below behind, perm.trans ?_⟩
    exact ((Claims.perm_of_claim? claim).append_left _).trans List.perm_middle
  | case6 claims path record rest name named is none ih =>
    obtain ⟨claimed, listed, perm⟩ := ih run
    exact ⟨claimed, .empty named is none listed, perm⟩
  | case9 claims path record rest name named here is some data readable first claim ih =>
    obtain ⟨claimed, listed, perm⟩ := ih run
    refine ⟨_, .file named is some readable listed, perm.trans ?_⟩
    exact ((Claims.perm_of_claim? claim).append_left _).trans List.perm_middle
  | _ => cases run

/-- Regions in the order of their starts start at blocks of their own. -/
theorem nodup_of_ascending {found : List Region}
    (ascending : found.Pairwise fun a b => a.start < b.start) : (found.map Region.start).Nodup :=
  (ascending.map Region.start fun _ _ => id).imp UInt32.ne_of_lt

/-- The regions of an image are what it claims, in the order of their starts. -/
theorem claimed_of_regions {found : List Region} (run : regions img = .ok found) :
    ∃ claimed, Claimed img claimed ∧ found.Perm claimed
      ∧ found.Pairwise fun a b => a.start < b.start := by
  unfold regions at run
  split at run
  · cases run
  · next records root =>
    cases search : claimAll img (records.map (rootPath, ·)) (.single (rootRegion img records)) with
    | error e =>
      rw [search] at run
      cases run
    | ok more =>
      rw [search] at run
      obtain rfl := Except.ok.inj run
      obtain ⟨inner, listed, perm⟩ := listed_of_claimAll search
      refine ⟨_, ⟨records, inner, root, listed, rfl⟩, ?_, List.pairwise_reverse.2 more.descending⟩
      exact (List.reverse_perm _).trans (perm.trans (List.perm_append_singleton _ _))

/-- Claims that start at blocks of their own are the regions of the image. -/
theorem regions_of_claimed (all : Claimed img claimed) (apart : (claimed.map Region.start).Nodup) :
    ∃ found, regions img = .ok found ∧ found.Perm claimed := by
  obtain ⟨records, inner, root, listed, rfl⟩ := all
  have back := List.perm_append_singleton (rootRegion img records) inner
  have fresh : Fresh inner (.single (rootRegion img records)) :=
    ((back.map Region.start).nodup_iff).2 apart
  obtain ⟨more, run, perm⟩ := claimAll_of_listed listed fresh []
  refine ⟨more.regions.reverse, ?_, (List.reverse_perm _).trans (perm.trans back)⟩
  rw [List.append_nil, claimAll] at run
  simp only [regions, root, run]
  rfl

/-- An image has regions exactly when what it claims can be read and starts at blocks of its own. -/
theorem regions_eq_ok_iff {found : List Region} : regions img = .ok found ↔
    ∃ claimed, Claimed img claimed ∧ found.Perm claimed
      ∧ found.Pairwise fun a b => a.start < b.start := by
  refine ⟨claimed_of_regions, ?_⟩
  rintro ⟨claimed, all, perm, ascending⟩
  have apart := ((perm.map Region.start).nodup_iff).1 (nodup_of_ascending ascending)
  obtain ⟨found', run, perm'⟩ := regions_of_claimed all apart
  obtain ⟨_, _, _, ascending'⟩ := claimed_of_regions run
  have same : found' = found := (perm'.trans perm.symm).eq_of_pairwise
    (fun _ _ _ _ lt lt' => absurd lt' (UInt32.lt_asymm lt)) ascending' ascending
  rw [run, same]

end FlatImage.Dump
