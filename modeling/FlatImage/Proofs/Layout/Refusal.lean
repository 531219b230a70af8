import FlatImage.Proofs.Layout.Planning

/-!
# Refusals that are left

A tree whose names are accepted and whose files are small can still be refused, but only because of
the options or because its image would be too large: `Layout.refusal_of_plan`.
-/

namespace FlatImage

variable {o : Options} {path : Path} {name : Bytes} {counted data : Nat} {e : RunError}

/-- The image would need more blocks than the options allow. -/
def Options.RefusesSize (o : Options) (e : RunError) : Prop :=
  ∃ path, e = .imageTooLarge path o.maxBlocks.toNat

theorem Entry.refusesSize_of_sizeRefusal? {entry : Entry}
    (small : ∀ f, entry = .file f → f.size ≤ o.maxFileSize)
    (refused : entry.sizeRefusal? o path data = some e) : o.RefusesSize e := by
  obtain ⟨_, _, _, rfl⟩ | ⟨f, is, large, _⟩ | ⟨_, _, _, _, rfl⟩ :=
    sizeRefusal?_eq_some_iff.1 refused
  · exact ⟨path, rfl⟩
  · exact absurd (small f is) (UInt64.not_le.2 large)
  · exact ⟨path, rfl⟩

theorem Entry.refusesSize_of_refusal? {entry : Entry} (checked : Name.check name = .ok ())
    (small : ∀ f, entry = .file f → f.size ≤ o.maxFileSize)
    (refused : entry.refusal? o path name counted data = some e) : o.RefusesSize e := by
  rw [refusal?, Name.refusal?_eq_none_iff.2 checked, Option.none_or, Option.or_eq_some_iff]
    at refused
  obtain many | ⟨_, large⟩ := refused
  · split at many
    · exact ⟨path, (Option.some.inj many).symm⟩
    · cases many
  · exact refusesSize_of_sizeRefusal? small large

mutual

/-- Where names are accepted and files are small, only the size of the image is refused. -/
theorem Directory.refusesSize_of_offence? {path : Path} {counted data : Nat} (d : Directory)
    (checked : ∀ name ∈ d.names, Name.check name = .ok ())
    (small : ∀ place ∈ d.allFiles path, place.2.size ≤ o.maxFileSize)
    (refused : d.offence? o path counted data = some e) : o.RefusesSize e := by
  cases d with
  | mk mtime entries => exact entries.refusesSize_of_offence? checked small refused

theorem Entries.refusesSize_of_offence? {path : Path} {counted data : Nat} (entries : Entries)
    (checked : ∀ name ∈ entries.names, Name.check name = .ok ())
    (small : ∀ place ∈ entries.allFiles path, place.2.size ≤ o.maxFileSize)
    (refused : entries.offence? o path counted data = some e) : o.RefusesSize e := by
  cases entries with
  | nil => cases refused
  | cons name entry rest =>
    obtain ⟨own, others⟩ := List.forall_mem_append.1 checked
    obtain ⟨small, small'⟩ := List.forall_mem_append.1 small
    rw [Entries.offence?, Option.or_eq_some_iff] at refused
    obtain first | ⟨_, later⟩ := refused
    · exact entry.refusesSize_of_offence? own small first
    · exact rest.refusesSize_of_offence? others small' later

theorem Entry.refusesSize_of_offence? {path : Path} {name : Bytes} {counted data : Nat}
    (entry : Entry) (checked : ∀ other ∈ name :: entry.names, Name.check other = .ok ())
    (small : ∀ place ∈ entry.allFiles path, place.2.size ≤ o.maxFileSize)
    (refused : entry.offence? o path name counted data = some e) : o.RefusesSize e := by
  obtain ⟨own, below⟩ := List.forall_mem_cons.1 checked
  cases entry with
  | file f =>
    refine Entry.refusesSize_of_refusal? own ?_ refused
    rintro _ ⟨⟩
    exact small _ (List.mem_singleton_self _)
  | directory d =>
    rw [Entry.offence?, Option.or_eq_some_iff] at refused
    obtain self | ⟨_, inside⟩ := refused
    · refine Entry.refusesSize_of_refusal? own ?_ self
      rintro _ ⟨⟩
    · exact d.refusesSize_of_offence? below small inside

end

/-- Why a tree of accepted names and small files has no plan. -/
theorem Layout.refusal_of_plan {root : Directory} {fault : Fault RunError}
    (checked : ∀ name ∈ root.names, Name.check name = .ok ())
    (small : ∀ place ∈ root.allFiles rootPath, place.2.size ≤ o.maxFileSize)
    (refused : plan root o = .error fault) :
    (∃ cause, fault = .error (.invalidOptions cause))
      ∨ ∃ e, fault = .error e ∧ o.RefusesSize e := by
  rw [Directory.plan_eq] at refused
  cases found : root.refusal? o with
  | none =>
    rw [found] at refused
    cases refused
  | some e =>
    rw [found] at refused
    cases refused
    unfold Directory.refusal? at found
    split at found
    · next cause _ => exact .inl ⟨cause, congrArg Fault.error (Option.some.inj found).symm⟩
    · split at found
      · exact .inr ⟨e, rfl, rootPath, (Option.some.inj found).symm⟩
      · exact .inr ⟨e, rfl, root.refusesSize_of_offence? checked small found⟩

end FlatImage
