import FlatImage.Host.Arrange
import FlatImage.Proofs.Host.Blindness
import FlatImage.Proofs.Host.Following
import FlatImage.Proofs.Queries

/-!
# What unpacking cannot do

Unpacking trusts nothing that an image says. Whatever image is unpacked into a directory, and
wherever it stops, there are new files and directories below the directory, where the image names
them, and new modification times of directories; everything else on the host is as it was. No link
below the directory is followed: a host whose links lead elsewhere goes through the same changes.

`Unpack.Confined` is a relation between the host before and the host after. Each single call keeps
to it, and so does one call after another.
-/

namespace FlatImage

/-! ## What an image names -/

namespace Image

/-- An entry can be made of the name of a record. -/
structure Names (record : Record) (name : Bytes) : Prop where
  read : Image.name record = .ok name
  accepted : Name.check name = .ok ()

theorem Names.name_eq {record : Record} {name : Bytes} (names : Names record name) :
    record.name = name := by
  have read := names.read
  unfold Image.name at read
  split at read
  · cases read
  · split at read
    · cases read
    · exact Except.ok.inj read

/-- The records of the directory that names lead to from the root of an image. -/
inductive Lists (img : Image) : List Bytes → List Record → Prop where
  | root {records : List Record} (found : img.root = .ok records) : Lists img [] records
  | inside {names : List Bytes} {records inner : List Record} {record : Record} {name : Bytes}
      (above : Lists img names records) (mem : record ∈ records) (named : Names record name)
      (table : img.directory record = .ok inner) : Lists img (names ++ [name]) inner

/-- The record of the entry that names lead to. -/
inductive Leads (img : Image) : List Bytes → Record → Prop where
  | intro {names : List Bytes} {records : List Record} {record : Record} {name : Bytes}
      (above : img.Lists names records) (mem : record ∈ records) (named : Names record name) :
      Leads img (names ++ [name]) record

end Image

namespace Host

open Unpack (Context Task Seen Refusals later)

/-- A name is unpacked when an entry can be made of it. -/
theorem Unpack.nameOf_eq_ok_iff {context : List Context} {record : Record} {name : Bytes} :
    nameOf context record = .ok name ↔ Image.Names record name := by
  unfold nameOf reading
  cases read : Image.name record with
  | error e =>
    refine ⟨nofun, fun names => ?_⟩
    cases read.symm.trans names.read
  | ok found =>
    cases accepted : Name.check found with
    | error e =>
      simp only [accepted]
      refine ⟨nofun, fun names => ?_⟩
      obtain rfl := Except.ok.inj (read.symm.trans names.read)
      cases accepted.symm.trans names.accepted
    | ok _ =>
      simp only [accepted]
      constructor
      · intro same
        obtain rfl := Except.ok.inj same
        exact ⟨read, accepted⟩
      · intro names
        exact congrArg _ (Except.ok.inj (read.symm.trans names.read))

/-! ## Changes that unpacking may make -/

/-- What may become of a place on a host `h` when an image is unpacked into the directory `dir`.
Whether the run may have stopped inside a file is for `cut` to say. -/
inductive Unpack.Change (img : Image) (dir : Location) (cut : Prop) (h h' : Host)
    (loc : Location) : Prop where
  | kept (same : h'.view loc = h.view loc)
  /-- A file of the image is new. -/
  | file {names : List Bytes} {record : Record} {data : ByteArray} (place : loc = dir ++ names)
      (leads : img.Leads names record) (content : img.fileData record = .ok data)
      (new : h.view loc = none)
      (made : ∃ mtime, h'.view loc = some (.file ⟨.ofBuffer data, mtime, false⟩))
  /-- A file of the image is new, and some bytes at its end are missing. -/
  | part {names : List Bytes} {record : Record} {data : ByteArray} {taken : Nat} (short : cut)
      (place : loc = dir ++ names) (leads : img.Leads names record)
      (content : img.fileData record = .ok data) (missing : taken < data.size)
      (new : h.view loc = none)
      (made : h'.view loc = some (.file ⟨.ofBuffer (data.extract 0 taken), h.now, false⟩))
  /-- A directory of the image is new. -/
  | directory {names : List Bytes} {record : Record} {inner : List Record}
      (place : loc = dir ++ names) (leads : img.Leads names record)
      (table : img.directory record = .ok inner) (new : h.view loc = none)
      (made : h'.IsDirectory loc)
  /-- A directory was there, and has been given the modification time of one of the image. -/
  | stamped {names : List Bytes} {record : Record} {inner : List Record}
      (place : loc = dir ++ names) (leads : img.Leads names record)
      (table : img.directory record = .ok inner) (was : h.IsDirectory loc)
      (is : h'.IsDirectory loc)
  /-- A directory was there, and has an entry more. -/
  | grown {name : Bytes} (was : h.IsDirectory loc)
      (is : h'.view loc = some (.directory h.now .nil))
      (new : h.view (loc ++ [name]) = none) (made : h'.view (loc ++ [name]) ≠ none)

/-- The host `h'` is `h` but for what unpacking an image into the directory `dir` may change. -/
structure Unpack.Confined (img : Image) (dir : Location) (cut : Prop) (h h' : Host) : Prop where
  now : h'.now = h.now
  current : h'.current = h.current
  change : ∀ loc, Unpack.Change img dir cut h h' loc

namespace Unpack

variable {img : Image} {dir loc : Location} {cut cut' : Prop} {h h₁ h₂ : Host}

theorem Change.mono (change : Change img dir cut h h₁ loc) (only : cut → cut') :
    Change img dir cut' h h₁ loc := by
  cases change with
  | kept same => exact .kept same
  | file place leads content new made => exact .file place leads content new made
  | part short place leads content missing new made =>
    exact .part (only short) place leads content missing new made
  | directory place leads table new made => exact .directory place leads table new made
  | stamped place leads table was is => exact .stamped place leads table was is
  | grown was is new made => exact .grown was is new made

/-- Nothing disappears. -/
theorem Change.stays (change : Change img dir cut h h₁ loc) (there : h.view loc ≠ none) :
    h₁.view loc ≠ none := by
  cases change with
  | kept same => rwa [same]
  | file _ _ _ new _ => exact absurd new there
  | part _ _ _ _ _ new _ => exact absurd new there
  | directory _ _ _ new _ => exact absurd new there
  | stamped _ _ _ _ is =>
    obtain ⟨mtime, is⟩ := is
    rw [is]
    exact Option.some_ne_none _
  | grown _ is _ _ =>
    rw [is]
    exact Option.some_ne_none _

theorem Change.isDirectory (change : Change img dir cut h h₁ loc) (was : h.IsDirectory loc) :
    h₁.IsDirectory loc := by
  obtain ⟨mtime, seen⟩ := was
  cases change with
  | kept same => exact ⟨mtime, same.trans seen⟩
  | file _ _ _ new _ => cases new.symm.trans seen
  | part _ _ _ _ _ new _ => cases new.symm.trans seen
  | directory _ _ _ new _ => cases new.symm.trans seen
  | stamped _ _ _ _ is => exact is
  | grown _ is _ _ => exact ⟨_, is⟩

/-- A file stays as it is. -/
theorem Change.view_of_file {file : File} (change : Change img dir cut h h₁ loc)
    (was : h.view loc = some (.file file)) : h₁.view loc = some (.file file) := by
  cases change with
  | kept same => exact same.trans was
  | file _ _ _ new _ => cases new.symm.trans was
  | part _ _ _ _ _ new _ => cases new.symm.trans was
  | directory _ _ _ new _ => cases new.symm.trans was
  | stamped _ _ _ directory _ =>
    obtain ⟨mtime, directory⟩ := directory
    cases directory.symm.trans was
  | grown directory _ _ _ =>
    obtain ⟨mtime, directory⟩ := directory
    cases directory.symm.trans was

namespace Confined

theorem refl (img : Image) (dir : Location) (h : Host) : Confined img dir cut h h :=
  ⟨rfl, rfl, fun _ => .kept rfl⟩

theorem mono (step : Confined img dir cut h h₁) (only : cut → cut') :
    Confined img dir cut' h h₁ :=
  ⟨step.now, step.current, fun loc => (step.change loc).mono only⟩

/-- What may be changed in two steps may be changed in one. -/
theorem trans (first : Confined img dir cut h h₁) (second : Confined img dir cut h₁ h₂) :
    Confined img dir cut h h₂ where
  now := second.now.trans first.now
  current := second.current.trans first.current
  change loc := by
    -- Where something is new after the first step, the second one finds it there.
    have next := second.change loc
    cases first.change loc with
    | kept same =>
      cases next with
      | kept same' => exact .kept (same'.trans same)
      | file place leads content new made =>
        exact .file place leads content (same.symm.trans new) made
      | part short place leads content missing new made =>
        exact .part short place leads content missing (same.symm.trans new) (first.now ▸ made)
      | directory place leads table new made =>
        exact .directory place leads table (same.symm.trans new) made
      | stamped place leads table was is =>
        obtain ⟨mtime, was⟩ := was
        exact .stamped place leads table ⟨mtime, same.symm.trans was⟩ is
      | grown was is new made =>
        obtain ⟨mtime, was⟩ := was
        exact .grown ⟨mtime, same.symm.trans was⟩ (first.now ▸ is)
          (Decidable.byContradiction fun there => (first.change _).stays there new) made
    | file place leads content new made =>
      obtain ⟨mtime, made⟩ := made
      exact .file place leads content new ⟨mtime, next.view_of_file made⟩
    | part short place leads content missing new made =>
      exact .part short place leads content missing new (next.view_of_file made)
    | directory place leads table new made =>
      exact .directory place leads table new (next.isDirectory made)
    | stamped place leads table was is =>
      exact .stamped place leads table was (next.isDirectory is)
    | grown was is new made =>
      have made := (second.change _).stays made
      cases next with
      | kept same' => exact .grown was (same'.trans is) new made
      | file _ _ _ none _ => cases none.symm.trans is
      | part _ _ _ _ _ none _ => cases none.symm.trans is
      | directory _ _ _ none _ => cases none.symm.trans is
      | stamped place leads table _ is' => exact .stamped place leads table was is'
      | grown _ is' _ _ => exact .grown was (first.now ▸ is') new made

end Confined

end Unpack

/-! ## Single calls -/

section

variable {h h' : Host} {place sub : Location} {name : Bytes} {context : List Context}
variable {refusals : Refusals} {data : ByteArray} {taken : Nat} {e : IoError}

theorem vacant_eq_ok_iff : h.vacant place name = .ok () ↔ h.entry? place name = none := by
  unfold vacant
  cases h.entry? place name <;> simp

theorem openEntry_eq_ok (opened : h.openEntry place name = .ok sub) :
    sub = place ++ [name] ∧ h.IsDirectory sub := by
  unfold openEntry at opened
  split at opened
  · cases opened
  · next mtime entries found =>
    obtain rfl := Except.ok.inj opened
    exact ⟨rfl, isDirectory_iff.2 ⟨mtime, entries, found⟩⟩
  · cases opened

theorem Unpack.Refusals.short?_eq_some_iff :
    refusals.short? data = some (taken, e)
      ↔ refusals.write = some (taken, e) ∧ taken < data.size := by
  unfold short?
  rw [Option.filter_eq_some_iff, decide_eq_true_iff]

theorem restoreMtime_snd (h : Host) (place : Location) (context : List Context) (mtime : UInt64)
    (refusals : Refusals) : (h.restoreMtime place context mtime refusals).2 = h
      ∨ (h.restoreMtime place context mtime refusals).2 = h.stamp place mtime.toInt64 := by
  unfold restoreMtime
  split
  · cases refusals.setMtime with
    | some e => exact .inl rfl
    | none => exact .inr rfl
  · exact .inl rfl

/-- Entering a directory makes it where nothing was, or does nothing. -/
theorem enterDirectory_snd (h : Host) (place : Location) (context : List Context) (name : Bytes)
    (refusals : Refusals) : (h.enterDirectory place context name refusals).2 = h
      ∨ h.entry? place name = none
        ∧ (h.enterDirectory place context name refusals).2 = h.add place name h.freshDirectory := by
  unfold enterDirectory
  dsimp only
  split
  · next made =>
    refine .inr ⟨vacant_eq_ok_iff.1 (guarded_eq_ok_iff.1 made).2, ?_⟩
    split <;> rfl
  · refine .inl ?_
    split <;> rfl
  · exact .inl rfl

theorem enterDirectory_eq_ok
    (entered : h.enterDirectory place context name refusals = (.ok sub, h')) :
    sub = place ++ [name] ∧ h'.IsDirectory sub := by
  unfold enterDirectory at entered
  dsimp only at entered
  split at entered
  · split at entered
    · cases entered
    · next opened =>
      cases entered
      exact openEntry_eq_ok (guarded_eq_ok_iff.1 opened).2
  · split at entered
    · cases entered
    · next opened =>
      cases entered
      exact openEntry_eq_ok (guarded_eq_ok_iff.1 opened).2
  · cases entered

end

section

variable {img : Image} {dir : Location} {cut : Prop} {h h' : Host} {names : List Bytes}
variable {record : Record} {name : Bytes} {node shown : Node}

/-- A new entry of a directory is a change of its place, if it is one that may be made, and of the
directory's modification time. -/
theorem Unpack.confined_of_add {place : Location} (is : h.IsDirectory place)
    (new : h.entry? place name = none) (leaf : ∀ first rest, node.at? (first :: rest) = none)
    (now : h'.now = h.now) (current : h'.current = h.current)
    (same : ∀ loc, loc ≠ place ++ [name] → h'.view loc = (h.add place name node).view loc)
    (made : h'.view (place ++ [name]) = some shown)
    (change : Unpack.Change img dir cut h h' (place ++ [name])) :
    Unpack.Confined img dir cut h h' := by
  obtain ⟨mtime, entries, found⟩ := isDirectory_iff.1 is
  refine ⟨now, current, fun loc => ?_⟩
  by_cases here : loc = place ++ [name]
  · exact here ▸ change
  by_cases own : loc = place
  · subst own
    refine .grown is ?_ (view_eq_none_iff.2 new)
      fun none => Option.some_ne_none _ (made.symm.trans none)
    rw [same _ here]
    exact view_edit_self _ found
  refine .kept ?_
  rw [same _ here]
  by_cases below : place ++ [name] <+: loc
  · obtain ⟨rest, rfl⟩ := below
    cases rest with
    | nil => exact absurd (List.append_nil _) here
    | cons first rest =>
      have nothing : h.at? (place ++ [name] ++ first :: rest) = none := at?_append_of_none new _
      rw [view_eq_none_iff.2 nothing, view_eq_none_iff, List.append_assoc]
      exact (at?_add found name node (first :: rest)).trans (leaf first rest)
  · exact view_add_of_ne found own below

theorem Unpack.confined_restoreMtime {inner : List Record} (leads : img.Leads names record)
    (table : img.directory record = .ok inner) (is : h.IsDirectory (dir ++ names))
    (context : List Context) (mtime : UInt64) (refusals : Refusals) :
    Unpack.Confined img dir cut h (h.restoreMtime (dir ++ names) context mtime refusals).2 := by
  obtain same | same := restoreMtime_snd h (dir ++ names) context mtime refusals <;> rw [same]
  · exact .refl img dir h
  · refine ⟨rfl, rfl, fun loc => ?_⟩
    by_cases here : loc = dir ++ names
    · subst here
      obtain ⟨old, seen⟩ := is
      refine .stamped rfl leads table ⟨old, seen⟩ ⟨mtime.toInt64, ?_⟩
      rw [view_stamp_self, seen]
      rfl
    · exact .kept (view_stamp_of_ne _ here)

/-- Making a file where there is nothing. What is cut short ends the run. -/
theorem Unpack.confined_unpackFile {records : List Record} (above : img.Lists names records)
    (mem : record ∈ records) (named : Image.Names record name)
    (is : h.IsDirectory (dir ++ names)) (context : List Context) (refusals : Refusals) :
    let run := h.unpackFile img (dir ++ names) context record refusals
    Unpack.Confined img dir (run.1 ≠ .ok () ∧ refusals.write ≠ none) h run.2 := by
  obtain rfl := named.name_eq
  have leads : img.Leads (names ++ [record.name]) record := .intro above mem named
  have place : dir ++ names ++ [record.name] = dir ++ (names ++ [record.name]) :=
    List.append_assoc ..
  unfold unpackFile
  cases content : img.fileData record with
  | error e => exact .refl img dir h
  | ok data =>
    simp only [Unpack.reading]
    cases made : guarded refusals.createFile (h.vacant (dir ++ names) record.name) with
    | error e => exact .refl img dir h
    | ok _ =>
      have new : h.entry? (dir ++ names) record.name = none :=
        vacant_eq_ok_iff.1 (guarded_eq_ok_iff.1 made).2
      cases short : refusals.short? data with
      | some cut =>
        obtain ⟨taken, e⟩ := cut
        obtain ⟨refused, missing⟩ := Refusals.short?_eq_some_iff.1 short
        have part := view_add_self is record.name (h.freshFile (.ofBuffer (data.extract 0 taken)))
        refine confined_of_add is new (fun _ _ => rfl) rfl rfl (fun _ _ => rfl) part ?_
        refine .part ⟨?_, ?_⟩ place leads content missing (view_eq_none_iff.2 new) part
        · exact fun ok => by cases ok
        · rw [refused]
          exact Option.some_ne_none _
      | none =>
        have whole := view_add_self is record.name (h.freshFile (.ofBuffer data))
        dsimp only
        obtain same | same := restoreMtime_snd (h.add (dir ++ names) record.name
            (h.freshFile (.ofBuffer data))) (dir ++ names ++ [record.name]) context record.mtime
            refusals <;> rw [same]
        · refine confined_of_add is new (fun _ _ => rfl) rfl rfl (fun _ _ => rfl) whole ?_
          exact .file place leads content (view_eq_none_iff.2 new) ⟨_, whole⟩
        · have stamped := (view_stamp_self (h.add (dir ++ names) record.name
            (h.freshFile (.ofBuffer data))) (dir ++ names ++ [record.name])
            record.mtime.toInt64).trans (congrArg _ whole)
          refine confined_of_add is new (fun _ _ => rfl) rfl rfl
            (fun loc ne => view_stamp_of_ne _ ne) stamped ?_
          exact .file place leads content (view_eq_none_iff.2 new) ⟨_, stamped⟩

/-- A file of which the host takes a part has that part when the run has ended. -/
theorem unpackFile_of_short {context : List Context} {refusals : Refusals} {data : ByteArray}
    {taken : Nat} {e : IoError} (is : h.IsDirectory dir) (content : img.fileData record = .ok data)
    (new : h.entry? dir record.name = none) (made : refusals.createFile = none)
    (refused : refusals.write = some (taken, e)) (missing : taken < data.size) :
    ∃ h', h.unpackFile img dir context record refusals = (Unpack.fail context (.host e), h')
      ∧ h'.view (dir ++ [record.name])
        = some (.file ⟨.ofBuffer (data.extract 0 taken), h.now, false⟩) := by
  refine ⟨h.add dir record.name (h.freshFile (.ofBuffer (data.extract 0 taken))), ?_,
    view_add_self is _ _⟩
  · have vacant : guarded refusals.createFile (h.vacant dir record.name) = .ok () :=
      guarded_eq_ok_iff.2 ⟨made, vacant_eq_ok_iff.2 new⟩
    have short := Unpack.Refusals.short?_eq_some_iff.2 ⟨refused, missing⟩
    simp only [unpackFile, content, Unpack.reading, vacant, short]

/-- Entering a directory, which is new or was there. -/
theorem Unpack.confined_enterDirectory {records inner : List Record}
    (above : img.Lists names records) (mem : record ∈ records) (named : Image.Names record name)
    (table : img.directory record = .ok inner) (is : h.IsDirectory (dir ++ names))
    (context : List Context) (refusals : Refusals) :
    Unpack.Confined img dir cut h (h.enterDirectory (dir ++ names) context name refusals).2 := by
  obtain same | ⟨new, same⟩ := enterDirectory_snd h (dir ++ names) context name refusals <;>
    rw [same]
  · exact .refl img dir h
  · have made := view_add_self is name h.freshDirectory
    refine confined_of_add is new (fun _ _ => rfl) rfl rfl (fun _ _ => rfl) made ?_
    exact .directory (List.append_assoc ..) (.intro above mem named) table
      (view_eq_none_iff.2 new) ⟨_, made⟩

end

/-! ## Runs -/

/-- What a task is about is named by the image, and the directory that it is about is there. -/
def Unpack.Task.Sound (img : Image) (dir : Location) (h : Host) : Task → Prop
  | .record place _ listed => ∃ names records, place = dir ++ names ∧ img.Lists names records
    ∧ listed ∈ records ∧ h.IsDirectory place
  | .stamp place _ _ => ∃ names listed inner, place = dir ++ names ∧ img.Leads names listed
    ∧ img.directory listed = .ok inner ∧ h.IsDirectory place

theorem Unpack.Task.Sound.after {img : Image} {dir : Location} {cut : Prop} {h h' : Host}
    {task : Task} (sound : task.Sound img dir h) (step : Unpack.Confined img dir cut h h') :
    task.Sound img dir h' := by
  cases task with
  | record place context record =>
    obtain ⟨names, records, rfl, above, mem, is⟩ := sound
    exact ⟨names, records, rfl, above, mem, (step.change _).isDirectory is⟩
  | stamp place context mtime =>
    obtain ⟨names, record, inner, rfl, leads, table, is⟩ := sound
    exact ⟨names, record, inner, rfl, leads, table, (step.change _).isDirectory is⟩

/-- A run has failed, and the host was to take only a part of some file. -/
def Unpack.CutShort (refusals : Nat → Refusals) (result : Unpack.Step Unit) : Prop :=
  result ≠ .ok () ∧ ∃ n, (refusals n).write ≠ none

theorem Unpack.CutShort.of_later {refusals : Nat → Refusals} {result : Unpack.Step Unit}
    (short : CutShort (later refusals) result) : CutShort refusals result := by
  obtain ⟨failed, n, refused⟩ := short
  exact ⟨failed, n + 1, refused⟩

/-- Whatever tasks are worked through, and wherever that ends, nothing else is changed. -/
theorem Unpack.confined_unpackAll (img : Image) (dir : Location) (h : Host) (seen : Seen)
    (tasks : List Task) (refusals : Nat → Refusals)
    (sound : ∀ task ∈ tasks, task.Sound img dir h) :
    let run := h.unpackAll img seen tasks refusals
    Unpack.Confined img dir (Unpack.CutShort refusals run.1) h run.2 := by
  fun_induction unpackAll h img seen tasks refusals with
  | case1 h seen refusals => exact .refl img dir h
  | case2 h seen refusals place context mtime rest e h₁ step =>
    obtain ⟨⟨names, record, inner, rfl, leads, table, is⟩, _⟩ := List.forall_mem_cons.1 sound
    simpa only [step] using confined_restoreMtime leads table is context mtime (refusals 0)
  | case3 h seen refusals place context mtime rest h₁ step ih =>
    obtain ⟨⟨names, record, inner, rfl, leads, table, is⟩, others⟩ := List.forall_mem_cons.1 sound
    have own : Confined img dir False h h₁ := by
      simpa only [step] using confined_restoreMtime leads table is context mtime (refusals 0)
    exact (own.mono False.elim).trans
      ((ih fun task mem => (others task mem).after own).mono CutShort.of_later)
  | case4 => exact .refl img dir _
  | case5 => exact .refl img dir _
  | case6 => exact .refl img dir _
  | case7 h seen refusals place outer record rest name named context _ inner table _ e h₁ step =>
    obtain ⟨⟨names, records, rfl, above, mem, is⟩, _⟩ := List.forall_mem_cons.1 sound
    simpa only [step] using confined_enterDirectory above mem (nameOf_eq_ok_iff.1 named) table is
      context (refusals 0)
  | case8 h seen refusals place outer record rest name named context _ inner table _ sub h₁ step
      ih =>
    obtain ⟨⟨names, records, rfl, above, mem, is⟩, others⟩ := List.forall_mem_cons.1 sound
    have named := nameOf_eq_ok_iff.1 named
    have own : Confined img dir False h h₁ := by
      simpa only [step] using
        confined_enterDirectory above mem named table is context (refusals 0)
    obtain ⟨rfl, there⟩ := enterDirectory_eq_ok step
    refine (own.mono False.elim).trans ((ih (List.forall_mem_append.2
      ⟨?_, List.forall_mem_cons.2 ⟨?_, ?_⟩⟩)).mono CutShort.of_later)
    · intro task task_mem
      obtain ⟨record', listed, rfl⟩ := List.mem_map.1 task_mem
      exact ⟨_, inner, List.append_assoc .., .inside above mem named table, listed, there⟩
    · exact ⟨_, record, inner, List.append_assoc .., .intro above mem named, table, there⟩
    · exact fun task mem' => (others task mem').after own
  | case9 h seen refusals place outer record rest name named context _ e h₁ step =>
    obtain ⟨⟨names, records, rfl, above, mem, is⟩, _⟩ := List.forall_mem_cons.1 sound
    have own := confined_unpackFile above mem (nameOf_eq_ok_iff.1 named) is context (refusals 0)
    rw [step] at own
    exact own.mono fun short => ⟨short.1, 0, short.2⟩
  | case10 h seen refusals place outer record rest name named context _ h₁ step ih =>
    obtain ⟨⟨names, records, rfl, above, mem, is⟩, others⟩ := List.forall_mem_cons.1 sound
    have own := confined_unpackFile above mem (nameOf_eq_ok_iff.1 named) is context (refusals 0)
    rw [step] at own
    have own : Confined img dir False h h₁ := own.mono fun short => absurd rfl short.1
    exact (own.mono False.elim).trans
      ((ih fun task mem' => (others task mem').after own).mono CutShort.of_later)

/-- A run whose first entry is a file ends with it when the file cannot be made. -/
theorem unpack_of_unpackFile {h h' : Host} {img : Image} {dest : Path} {dir : Location}
    {refusals : Nat → Refusals} {record : Record} {records : List Record} {name : Bytes}
    {e : Fault Unpack.Failure}
    (opened : guarded (refusals 0).openDirectory (h.openDirectory dest true) = .ok dir)
    (root : img.root = .ok (record :: records)) (named : Image.Names record name)
    (file : record.isDirectory = false)
    (step : h.unpackFile img dir [.extracting name] record (refusals 1) = (.error e, h')) :
    h.unpack img dest refusals = (.error e, h') := by
  simp only [unpack, opened, root, Unpack.reading, List.map_cons]
  rw [unpackAll_record _ _ _ _ (Unpack.nameOf_eq_ok_iff.2 named)]
  simp only [file, Bool.false_eq_true, if_false, List.nil_append, later, step]

/-- Unpacking is confined to what the image names below the opened directory, and makes there only
what is new. The host may refuse calls in any pattern: a file is incomplete only when the host took
no more of one, and then the run has failed. Links do not matter to it: whatever host differs from
this one in nothing but where its links lead, and whatever path opens the directory there, the
result is the same and so is, but for the links' targets, what is left. -/
theorem unpack_confined (h : Host) (img : Image) (dest : Path) (refusals : Nat → Refusals) :
    match guarded (refusals 0).openDirectory (h.openDirectory dest true) with
    | .error _ => (h.unpack img dest refusals).2 = h
    | .ok dir =>
      Unpack.Confined img dir (Unpack.CutShort refusals (h.unpack img dest refusals).1) h
          (h.unpack img dest refusals).2
        ∧ ∀ (k : Host) (other : Path), k.blind = h.blind → k.openDirectory other true = .ok dir →
          (k.unpack img other refusals).1 = (h.unpack img dest refusals).1
            ∧ (k.unpack img other refusals).2.blind = (h.unpack img dest refusals).2.blind := by
  unfold unpack
  cases opened : guarded (refusals 0).openDirectory (h.openDirectory dest true) with
  | error e => rfl
  | ok dir =>
    obtain ⟨unrefused, opened⟩ := guarded_eq_ok_iff.1 opened
    have again {k : Host} {other : Path} (opens : k.openDirectory other true = .ok dir) :
        guarded (refusals 0).openDirectory (k.openDirectory other true) = .ok dir :=
      guarded_eq_ok_iff.2 ⟨unrefused, opens⟩
    cases found : img.root with
    | error e =>
      refine ⟨.refl img dir h, ?_⟩
      intro k other same opens
      rw [again opens]
      exact ⟨rfl, same⟩
    | ok records =>
      refine ⟨(Unpack.confined_unpackAll img dir h _ _ _ ?_).mono Unpack.CutShort.of_later, ?_⟩
      · intro task mem
        obtain ⟨record, listed, rfl⟩ := List.mem_map.1 mem
        exact ⟨[], records, (List.append_nil dir).symm, .root found, listed,
          isDirectory_of_openDirectory opened⟩
      · intro k other same opens
        rw [again opens]
        have both := (unpackAll_blind k img _ _ _).symm.trans
          (same ▸ unpackAll_blind h img [img.superblock.rootTable] (records.map (.record dir []))
            (later refusals))
        exact Prod.ext_iff.1 both

theorem openDirectory_scratch (now : Int64) :
    (scratch now).openDirectory Name.current true = .ok (scratch now).current
      ∧ (scratch now).at? (scratch now).current = some (.directory now .nil) := by
  have is : (scratch now).at? (scratch now).current = some (.directory now .nil) := by
    simp [scratch, at?, Node.at?, Nodes.find?]
  exact ⟨openDirectory_current (isDirectory_iff.2 ⟨now, .nil, is⟩), is⟩

def full : IoError := .described "No space left on device (os error 28)"

/-- The host is full after two bytes of the first entry. -/
def fullSoon (n : Nat) : Refusals := if n = 1 then { write := some (2, full) } else {}

/-- The image of one file of three bytes is unpacked into the empty directory of a new host. The two
bytes that were taken are there when the run has ended. -/
theorem unpack_confined_fullSoon : ∃ h', (scratch 9).unpack .single Name.current fullSoon
      = (Unpack.fail [.extracting [0x61]] (.host full), h')
    ∧ h'.view ((scratch 9).current ++ [[0x61]]) = some (.file ⟨.ofBuffer ⟨#[1, 2]⟩, 9, false⟩)
    ∧ Unpack.Confined .single (scratch 9).current
      (Unpack.CutShort fullSoon (Unpack.fail [.extracting [0x61]] (.host full)))
      (scratch 9) h' := by
  obtain ⟨opened, empty⟩ := openDirectory_scratch 9
  have into := guarded_eq_ok_iff.2 ⟨(rfl : (fullSoon 0).openDirectory = none), opened⟩
  have vacant : entry? (scratch 9) (scratch 9).current [0x61] = none := entry?_eq empty [0x61]
  have named : Image.Names .single [0x61] := ⟨Image.name_of_padName rfl rfl rfl (.inr rfl), rfl⟩
  obtain ⟨h', step, made⟩ : ∃ h', (scratch 9).unpackFile .single (scratch 9).current
      [.extracting [0x61]] .single (fullSoon 1) = (Unpack.fail _ (.host full), h') ∧ _ :=
    unpackFile_of_short (isDirectory_of_openDirectory opened) Image.fileData_single vacant rfl rfl
      (by decide)
  have run := unpack_of_unpackFile into Image.root_single named rfl step
  have confined := unpack_confined (scratch 9) .single Name.current fullSoon
  rw [into, run] at confined
  exact ⟨h', run, made, confined.1⟩

end Host

end FlatImage
