import FlatImage.Tree

/-!
# Inserting entries

A directory in order is a map from names to entries: another one that gives the same entry for every
name is the same directory. So of the way in which a directory was made nothing is left but the last
entry of each name. Entries of different names can be inserted in any order, and a list of them can
be sorted first and inserted at once.
-/

namespace FlatImage

namespace Bytes

variable {as bs : Bytes}

theorem ne_of_before (h : before as bs) : as ≠ bs := by
  rintro rfl
  rw [before_irrefl] at h
  cases h

theorem not_before_of_before (h : before as bs) : ¬ before bs as :=
  fun back => ne_of_before (before_trans h back) rfl

theorem not_before_trans {cs : Bytes} (h : ¬ before bs as) (h' : ¬ before cs bs) :
    ¬ before cs as := by
  intro back
  rcases before_trichotomy bs cs with lt | rfl | lt
  · exact h (before_trans lt back)
  · exact h back
  · exact h' lt

end Bytes

namespace Entries

variable {name other : Bytes} {entry old : Entry} {rest : Entries}

/-! ## The order of two insertions -/

theorem insert_cons_self (name : Bytes) (entry old : Entry) (rest : Entries) :
    (cons name old rest).insert name entry = cons name entry rest := if_pos rfl

theorem insert_cons_of_before (h : name.before other) :
    (cons other old rest).insert name entry = cons name entry (cons other old rest) := by
  rw [insert, if_neg (Bytes.ne_of_before h).symm, if_pos h]

theorem insert_cons_of_after (h : other.before name) :
    (cons other old rest).insert name entry = cons other old (rest.insert name entry) := by
  rw [insert, if_neg (Bytes.ne_of_before h), if_neg (Bytes.not_before_of_before h)]

/-- Two entries can be inserted in either order when the name of one comes before that of the
other. -/
theorem insert_comm_of_before {name' : Bytes} {entry' : Entry} (h : name.before name')
    (entries : Entries) : (entries.insert name' entry').insert name entry
      = (entries.insert name entry).insert name' entry' := by
  match entries with
  | nil => rw [insert, insert, insert_cons_of_before h, insert_cons_of_after h, insert]
  | cons other old rest =>
    rcases Bytes.before_trichotomy name' other with low' | rfl | high'
    · have low := Bytes.before_trans h low'
      rw [insert_cons_of_before low', insert_cons_of_before h, insert_cons_of_before low,
        insert_cons_of_after h, insert_cons_of_before low']
    · rw [insert_cons_self, insert_cons_of_before h, insert_cons_of_before h,
        insert_cons_of_after h, insert_cons_self]
    · rw [insert_cons_of_after high']
      rcases Bytes.before_trichotomy name other with low | rfl | high
      · rw [insert_cons_of_before low, insert_cons_of_before low, insert_cons_of_after h,
          insert_cons_of_after high']
      · rw [insert_cons_self, insert_cons_self, insert_cons_of_after high']
      · rw [insert_cons_of_after high, insert_cons_of_after high, insert_cons_of_after high',
          insert_comm_of_before h rest]

theorem insert_comm {name' : Bytes} (ne : name ≠ name') (entry entry' : Entry)
    (entries : Entries) : (entries.insert name entry).insert name' entry'
      = (entries.insert name' entry').insert name entry := by
  rcases Bytes.before_trichotomy name name' with h | h | h
  · exact (insert_comm_of_before h entries).symm
  · exact absurd h ne
  · exact insert_comm_of_before h entries

/-! ## Entries in order are a map -/

/-- Entries in order that start after a name have no entry of that name. -/
theorem find?_eq_none {entries : Entries} (ordered : entries.ordered)
    (after : entries.startsAfter name) : entries.find? name = none := by
  match entries with
  | nil => rfl
  | cons other old rest =>
    simp only [Entries.ordered, Bool.and_eq_true] at ordered
    have behind : rest.startsAfter name := by
      cases rest with
      | nil => rfl
      | cons => exact Bytes.before_trans after ordered.1.1
    rw [find?, if_neg (Bytes.ne_of_before after).symm, find?_eq_none ordered.2 behind]

theorem find?_cons_self (name : Bytes) (entry : Entry) (rest : Entries) :
    (cons name entry rest).find? name = some entry := if_pos rfl

theorem eq_of_find? {entries entries' : Entries} (ordered : entries.ordered)
    (ordered' : entries'.ordered) (same : ∀ name, entries.find? name = entries'.find? name) :
    entries = entries' := by
  match entries, entries' with
  | nil, nil => rfl
  | nil, cons name entry rest => exact nomatch (same name).trans (find?_cons_self ..)
  | cons name entry rest, nil => exact nomatch (find?_cons_self ..).symm.trans (same name)
  | cons name entry rest, cons name' entry' rest' =>
    obtain rfl : name = name' := by
      rcases Bytes.before_trichotomy name name' with h | h | h
      · exact nomatch (find?_cons_self ..).symm.trans ((same name).trans (find?_eq_none ordered' h))
      · exact h
      · exact nomatch (find?_cons_self ..).symm.trans
          ((same name').symm.trans (find?_eq_none ordered h))
    have first : some entry = some entry' :=
      (find?_cons_self ..).symm.trans ((same name).trans (find?_cons_self ..))
    simp only [Entries.ordered, Bool.and_eq_true] at ordered ordered'
    have others : ∀ other, rest.find? other = rest'.find? other := by
      intro other
      by_cases is : name = other
      · subst is
        rw [find?_eq_none ordered.2 ordered.1.1, find?_eq_none ordered'.2 ordered'.1.1]
      · have given := same other
        rwa [find?, if_neg is, find?, if_neg is] at given
    rw [Option.some.inj first, eq_of_find? ordered.2 ordered'.2 others]

/-! ## The last entry of a name -/

/-- The last entry that a list has of a name. -/
def lastOf (name : Bytes) (pairs : List (Bytes × Entry)) : Option Entry :=
  (pairs.filter fun pair => pair.1 = name).getLast?.map Prod.snd

theorem lastOf_append (name : Bytes) (front back : List (Bytes × Entry)) :
    lastOf name (front ++ back) = (lastOf name back).or (lastOf name front) := by
  simp only [lastOf, List.filter_append, List.getLast?_append, Option.map_or]

theorem lastOf_cons (name : Bytes) (pair : Bytes × Entry) (pairs : List (Bytes × Entry)) :
    lastOf name (pair :: pairs)
      = (lastOf name pairs).or (if pair.1 = name then some pair.2 else none) := by
  have single : lastOf name [pair] = if pair.1 = name then some pair.2 else none := by
    by_cases is : pair.1 = name
    · simp [lastOf, is]
    · simp [lastOf, is]
  rw [← List.singleton_append, lastOf_append, single]

/-- Entries in order have one entry of a name at most. -/
theorem lastOf_toList {entries : Entries} (ordered : entries.ordered) (name : Bytes) :
    lastOf name entries.toList = entries.find? name := by
  match entries with
  | nil => rfl
  | cons other old rest =>
    simp only [Entries.ordered, Bool.and_eq_true] at ordered
    rw [toList, lastOf_cons, lastOf_toList ordered.2 name, find?]
    by_cases is : other = name
    · subst is
      rw [find?_eq_none ordered.2 ordered.1.1, Option.none_or, if_pos rfl]
    · rw [if_neg is, if_neg is, Option.or_none]

/-- Entries in order are in order below as well. -/
theorem ordered_of_mem_toList {entries : Entries} (ordered : entries.ordered) :
    ∀ pair ∈ entries.toList, pair.2.ordered := by
  match entries with
  | nil => exact nofun
  | cons other old rest =>
    simp only [Entries.ordered, Bool.and_eq_true] at ordered
    exact List.forall_mem_cons.2 ⟨ordered.1.2, ordered_of_mem_toList ordered.2⟩

/-! ## Entries from a list -/

/-- No name comes before `name`, if the entries are in order. -/
def startsFrom (name : Bytes) : Entries → Bool
  | nil => true
  | cons other _ _ => !other.before name

theorem startsFrom_prepend {first : Bytes} (h : ¬ name.before first) (entry : Entry)
    (later : Entries) : (later.prepend name entry).startsFrom first := by
  cases later with
  | nil => simpa [prepend, startsFrom] using h
  | cons other old rest =>
    unfold prepend
    by_cases same : other = name
    · subst same
      simpa [startsFrom] using h
    · simpa [same, startsFrom] using h

/-- What starts from a name and not with it starts after it. -/
theorem before_of_startsFrom (h : (cons other old rest).startsFrom name) (ne : other ≠ name) :
    name.before other := by
  rcases Bytes.before_trichotomy other name with lt | is | lt
  · rw [startsFrom, lt] at h
    cases h
  · exact absurd is ne
  · exact lt

theorem ordered_prepend {entries : Entries} (ordered : entries.ordered) (inside : entry.ordered)
    (h : entries.startsFrom name) : (entries.prepend name entry).ordered := by
  cases entries with
  | nil => simp [prepend, Entries.ordered, startsAfter, inside]
  | cons other old rest =>
    by_cases same : other = name
    · simpa [prepend, same] using ordered
    · have after : (cons other old rest).startsAfter name := before_of_startsFrom h same
      simp only [prepend, if_neg same]
      rw [Entries.ordered, after, inside, ordered]
      rfl

/-- The entry in front is found where none of its name follows. -/
theorem find?_prepend {entries : Entries} (ordered : entries.ordered)
    (h : entries.startsFrom name) (entry : Entry) (wanted : Bytes) :
    (entries.prepend name entry).find? wanted
      = (entries.find? wanted).or (if name = wanted then some entry else none) := by
  cases entries with
  | nil => rfl
  | cons other old rest =>
    by_cases same : other = name
    · subst same
      simp only [prepend, if_pos, find?]
      by_cases is : other = wanted
      · rw [if_pos is, Option.some_or]
      · rw [if_neg is, if_neg is, Option.or_none]
    · simp only [prepend, if_neg same]
      rw [find?]
      by_cases is : name = wanted
      · subst is
        rw [if_pos rfl, if_pos rfl, find?_eq_none ordered (before_of_startsFrom h same),
          Option.none_or]
      · rw [if_neg is, if_neg is, Option.or_none]

/-- Whether a pair may stand in front of another one in a list sorted by name. -/
private abbrev upTo (a b : Bytes × Entry) : Bool := !Bytes.before b.1 a.1

private theorem upTo_trans (a b c : Bytes × Entry) (h : upTo a b) (h' : upTo b c) : upTo a c := by
  simp only [Bool.not_eq_true', Bool.eq_false_iff] at *
  exact Bytes.not_before_trans h h'

private theorem upTo_total (a b : Bytes × Entry) : upTo a b || upTo b a := by
  by_cases h : Bytes.before b.1 a.1
  · simp [Bytes.not_before_of_before h]
  · simp [h]

/-- Sorting a list by name keeps the order of several entries of one name. -/
theorem lastOf_mergeSort (name : Bytes) (pairs : List (Bytes × Entry)) :
    lastOf name (pairs.mergeSort upTo) = lastOf name pairs := by
  have level : (pairs.filter fun pair => pair.1 = name).Pairwise fun a b => upTo a b := by
    refine List.pairwise_of_forall_mem_list fun a mem b mem' => ?_
    have is := of_decide_eq_true (List.mem_filter.1 mem).2
    have is' := of_decide_eq_true (List.mem_filter.1 mem').2
    rw [upTo, is, is', Bytes.before_irrefl]
    rfl
  have kept := (List.sublist_mergeSort upTo_trans upTo_total level List.filter_sublist).filter
    fun pair => pair.1 = name
  rw [List.filter_filter] at kept
  simp only [Bool.and_self] at kept
  have all := kept.eq_of_length ((List.mergeSort_perm pairs upTo).filter _).length_eq.symm
  rw [lastOf, ← all, lastOf]

/-- A list of entries, once sorted, is put together to entries in order. -/
theorem ofList_sorted {pairs : List (Bytes × Entry)}
    (sorted : pairs.Pairwise fun a b => upTo a b)
    (inside : ∀ pair ∈ pairs, pair.2.ordered) :
    (pairs.foldr (fun pair later => later.prepend pair.1 pair.2) nil).ordered
      ∧ ∀ name, (pairs.foldr (fun pair later => later.prepend pair.1 pair.2) nil).find? name
        = lastOf name pairs := by
  induction pairs with
  | nil => exact ⟨rfl, fun _ => rfl⟩
  | cons pair pairs ih =>
    obtain ⟨first, sorted⟩ := List.pairwise_cons.1 sorted
    obtain ⟨own, inside⟩ := List.forall_mem_cons.1 inside
    obtain ⟨ordered, found⟩ := ih sorted inside
    have start : (pairs.foldr (fun pair later => later.prepend pair.1 pair.2) nil).startsFrom
        pair.1 := by
      cases pairs with
      | nil => rfl
      | cons next pairs =>
        refine startsFrom_prepend ?_ next.2 _
        simpa using first next List.mem_cons_self
    refine ⟨ordered_prepend ordered own start, fun name => ?_⟩
    rw [List.foldr_cons, find?_prepend ordered start, found, lastOf_cons]

/-- The entries of a list are in order, and the last one of each name is among them. -/
theorem find?_ofList (pairs : List (Bytes × Entry)) (inside : ∀ pair ∈ pairs, pair.2.ordered) :
    (ofList pairs).ordered ∧ ∀ name, (ofList pairs).find? name = lastOf name pairs := by
  have sorted := List.pairwise_mergeSort upTo_trans upTo_total pairs
  obtain ⟨ordered, found⟩ := ofList_sorted sorted fun pair mem =>
    inside pair ((List.mergeSort_perm pairs upTo).mem_iff.1 mem)
  exact ⟨ordered, fun name => (found name).trans (lastOf_mergeSort name pairs)⟩

end Entries

/-! ## Directories -/

namespace Directory

/-- Inserts entries one after the other. -/
def insertEach (d : Directory) (pairs : List (Bytes × Entry)) : Directory :=
  pairs.foldl (fun d pair => d.insert pair.1 pair.2) d

/-- The order in which entries are inserted leaves no trace, as long as none of them replaces
another one. -/
theorem insertEach_eq_of_perm {pairs pairs' : List (Bytes × Entry)} (perm : pairs.Perm pairs')
    (unique : ∀ pair ∈ pairs, ∀ pair' ∈ pairs, pair.1 = pair'.1 → pair = pair') (d : Directory) :
    d.insertEach pairs = d.insertEach pairs' := by
  refine perm.foldl_eq' (fun pair mem pair' mem' d => ?_) d
  by_cases same : pair.1 = pair'.1
  · rw [unique pair mem pair' mem' same]
  · exact congrArg (mk d.mtime) (Entries.insert_comm same pair.2 pair'.2 d.entries)

theorem mtime_insertEach (d : Directory) (pairs : List (Bytes × Entry)) :
    (d.insertEach pairs).mtime = d.mtime := by
  induction pairs generalizing d with
  | nil => rfl
  | cons pair pairs ih => exact ih (d.insert pair.1 pair.2)

theorem ordered_insertEach {d : Directory} {pairs : List (Bytes × Entry)} (ordered : d.ordered)
    (inside : ∀ pair ∈ pairs, pair.2.ordered) : (d.insertEach pairs).ordered := by
  induction pairs generalizing d with
  | nil => exact ordered
  | cons pair pairs ih =>
    obtain ⟨own, inside⟩ := List.forall_mem_cons.1 inside
    exact ih (ordered_insert ordered own) inside

/-- Of entries that are inserted, the last one of a name is found, and behind all of them what was
there before. -/
theorem find?_insertEach (d : Directory) (pairs : List (Bytes × Entry)) (name : Bytes) :
    (d.insertEach pairs).find? name = (Entries.lastOf name pairs).or (d.find? name) := by
  induction pairs generalizing d with
  | nil => rfl
  | cons pair pairs ih =>
    refine (ih (d.insert pair.1 pair.2)).trans ?_
    rw [Entries.lastOf_cons, Option.or_assoc]
    by_cases is : pair.1 = name
    · rw [if_pos is, ← is, find?_insert_self, Option.some_or]
    · rw [if_neg is, find?_insert_of_ne d pair.2 (Ne.symm is), Option.none_or]

/-- Directories in order with the same entry for every name are the same, but for their own
modification times. -/
theorem eq_of_find? {d d' : Directory} (ordered : d.ordered) (ordered' : d'.ordered)
    (mtime : d.mtime = d'.mtime) (same : ∀ name, d.find? name = d'.find? name) : d = d' := by
  cases d
  cases d'
  obtain rfl := mtime
  exact congrArg (mk _) (Entries.eq_of_find? ordered ordered' same)

/-- Adding entries all at once is inserting them one after the other. -/
theorem insertAll_eq_insertEach {d : Directory} {pairs : List (Bytes × Entry)}
    (ordered : d.ordered) (inside : ∀ pair ∈ pairs, pair.2.ordered) :
    d.insertAll pairs = d.insertEach pairs := by
  have own : d.entries.ordered := by
    cases d
    exact ordered
  obtain ⟨all, found⟩ := Entries.find?_ofList (d.entries.toList ++ pairs)
    (List.forall_mem_append.2 ⟨Entries.ordered_of_mem_toList own, inside⟩)
  refine eq_of_find? all (ordered_insertEach ordered inside) (d.mtime_insertEach pairs).symm
    fun name => ?_
  rw [find?_insertEach]
  refine (found name).trans ?_
  rw [Entries.lastOf_append, Entries.lastOf_toList own]
  rfl

end Directory

end FlatImage
