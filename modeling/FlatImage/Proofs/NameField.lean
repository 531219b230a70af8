import FlatImage.Proofs.Format
import FlatImage.Proofs.Utf8

/-!
# Names in their field

A record holds a name in thirty-six bytes and one for its length. Which names it takes is said here
without the order of the checks: what is wrong with a name is its length only where nothing else is.
An accepted name is found in the record as it was, so two records of different names differ.

Bytes that nobody accepted a name for are read as well, with any length in front of the field; the
length is cut to the field, and so reading a name stays within it.
-/

namespace FlatImage

namespace Name

variable {name : Bytes}

/-- Text that can stand between two separators of a path and means an entry there. -/
structure Proper (name : Bytes) : Prop where
  text : ∃ s : String, Bytes.ofString s = name
  nonempty : name ≠ []
  notCurrent : name ≠ [0x2E]
  notParent : name ≠ [0x2E, 0x2E]
  noSeparator : 0x2F ∉ name
  noZero : 0 ∉ name

theorem wellFormed_iff : wellFormed name ↔ Proper name := by
  simp only [wellFormed, Bool.and_eq_true, Bool.not_eq_true', bne_iff_ne, List.isEmpty_eq_false_iff,
    List.contains_eq_mem, decide_eq_false_iff_not, Utf8.valid_iff]
  constructor
  · rintro ⟨⟨⟨⟨⟨text, some⟩, here⟩, above⟩, slash⟩, zero⟩
    exact ⟨text, some, here, above, slash, zero⟩
  · rintro ⟨text, some, here, above, slash, zero⟩
    exact ⟨⟨⟨⟨⟨text, some⟩, here⟩, above⟩, slash⟩, zero⟩

theorem check_eq_invalid_iff : check name = .error .invalid ↔ ¬ Proper name := by
  rw [← wellFormed_iff, check]
  cases wellFormed name with
  | false => simp
  | true =>
    by_cases short : name.length ≤ Geometry.nameCapacity
    · simp [short]
    · simp [short]

/-- A name is measured only when nothing else is wrong with it. -/
theorem check_eq_tooLong_iff {length : Nat} : check name = .error (.tooLong length)
    ↔ Proper name ∧ 36 < name.length ∧ length = name.length := by
  rw [← wellFormed_iff, check]
  cases wellFormed name with
  | false => simp
  | true =>
    by_cases short : name.length ≤ Geometry.nameCapacity
    · have := Nat.not_lt.2 short
      simp only [Geometry.nameCapacity] at this
      simp [short, this]
    · have := Nat.lt_of_not_le short
      simp only [Geometry.nameCapacity] at this
      simp [short, this, eq_comm]

example : check (List.replicate 13 [0xE8, 0xAA, 0x9E]).flatten = .error (.tooLong 39) := by decide

end Name

namespace Record

variable {name : Bytes} {kind : UInt8} {r : Record}

theorem named_of_error {e : NameError} (refused : Name.check name = .error e) :
    named name kind = .error e := by
  rw [named, refused]
  rfl

/-- What a record of an accepted name has in the fields that depend on it. -/
theorem named_of_ok (kind : UInt8) (accepted : Name.check name = .ok ()) :
    ∃ r, named name kind = .ok r ∧ r.kind = kind ∧ r.nameLength = UInt8.ofNat name.length
      ∧ r.nameField = padName name := by
  rw [named, accepted]
  exact ⟨_, rfl, rfl, rfl, rfl⟩

theorem check_of_named (made : named name kind = .ok r) : Name.check name = .ok () := by
  cases checked : Name.check name with
  | error e =>
    rw [named_of_error checked] at made
    cases made
  | ok _ => rfl

theorem named_eq_error_iff {e : NameError} :
    named name kind = .error e ↔ Name.check name = .error e := by
  refine ⟨fun refused => ?_, named_of_error⟩
  cases checked : Name.check name with
  | error e' =>
    rw [named_of_error checked] at refused
    cases refused
    rfl
  | ok _ =>
    obtain ⟨r, made, _⟩ := named_of_ok kind checked
    rw [made] at refused
    cases refused

theorem exists_named_iff :
    (∃ r, named name kind = .ok r) ↔ Name.Proper name ∧ name.length ≤ 36 := by
  rw [← Name.wellFormed_iff]
  refine Iff.trans ⟨fun ⟨_, made⟩ => check_of_named made, fun accepted => ?_⟩ Name.check_eq_ok_iff
  obtain ⟨r, made, _⟩ := named_of_ok kind accepted
  exact ⟨r, made⟩

theorem padName_eq_zero {i : Nat} (inside : i < 36) (behind : name.length ≤ i) :
    (padName name)[i] = 0 := by
  rw [padName, Vector.getElem_ofFn, List.getD_eq_getElem?_getD, List.getElem?_eq_none behind]
  rfl

theorem length_name (r : Record) : r.name.length = min r.nameLength.toNat 36 := by
  rw [name, List.length_take, Vector.length_toList]

theorem Stored.second {bytes : Bytes} (stored : Stored bytes r) :
    bytes.getD 1 0 = r.nameLength := by
  rw [List.getD_eq_getElem?_getD, stored.nameLength, Option.getD_some]

/-- The name of sixty-four bytes is in the last thirty-six of them, whatever the second one says. -/
theorem name_of_stored {bytes : Bytes} (stored : Stored bytes r) :
    r.name = (bytes.drop 28).take (min (bytes.getD 1 0).toNat 36) := by
  have length : r.nameField.toList.length = 36 := Vector.length_toList
  rw [stored.name, stored.second, name, List.take_eq_take_iff, length]
  omega

/-- A record of an accepted name holds it, with zeros behind it, and is read as having it. -/
theorem name_of_named (known : kind = directoryKind ∨ kind = fileKind)
    (made : named name kind = .ok r) : r.kind = kind ∧ r.name = name
      ∧ (∀ i (inside : i < 36), name.length ≤ i → r.nameField[i] = 0)
      ∧ Image.name r = .ok name := by
  have accepted := check_of_named made
  obtain ⟨r', made', kept, length, field⟩ := named_of_ok kind accepted
  obtain rfl : r = r' := Except.ok.inj (made.symm.trans made')
  have sort : r.isDirectory ∨ r.isFile := by
    rw [isDirectory, isFile, kept, beq_iff_eq, beq_iff_eq]
    exact known
  have read := Image.name_of_padName accepted field length sort
  refine ⟨kept, ((Image.decided_name r).of_ok read).2.symm, fun i inside behind => ?_, read⟩
  simp only [field]
  exact padName_eq_zero inside behind

/-- A name is accepted when it is proper and fits, is refused by its length when it is proper and
too long, and as invalid otherwise. What was accepted is found again, zeros filling up its field,
so records of different names differ. The name of any sixty-four bytes stays within the field. -/
theorem named_faithful (known : kind = directoryKind ∨ kind = fileKind) (name : Bytes) :
    ((∃ r, named name kind = .ok r) ↔ Name.Proper name ∧ name.length ≤ 36)
    ∧ (∀ length, named name kind = .error (.tooLong length)
      ↔ Name.Proper name ∧ 36 < name.length ∧ length = name.length)
    ∧ (named name kind = .error .invalid ↔ ¬ Name.Proper name)
    ∧ (∀ r, named name kind = .ok r → r.kind = kind ∧ r.name = name
      ∧ (∀ i (inside : i < 36), name.length ≤ i → r.nameField[i] = 0)
      ∧ Image.name r = .ok name)
    ∧ (∀ r other s, named name kind = .ok r →
      (named other directoryKind = .ok s ∨ named other fileKind = .ok s) → name ≠ other → r ≠ s)
    ∧ ∀ bytes : Bytes, bytes.length = 64 → ∃ r, decode? bytes = some r
      ∧ r.name = (bytes.drop 28).take (min (bytes.getD 1 0).toNat 36)
      ∧ r.name.length = min (bytes.getD 1 0).toNat 36 ∧ Image.name r ≠ .error .abort := by
  refine ⟨exists_named_iff, fun _ => named_eq_error_iff.trans Name.check_eq_tooLong_iff,
    named_eq_error_iff.trans Name.check_eq_invalid_iff, fun r => name_of_named known, ?_, ?_⟩
  · rintro r other s made madeOther differ rfl
    have own : r.name = name := (name_of_named known made).2.1
    have same : r.name = other := by
      obtain made' | made' := madeOther
      · exact (name_of_named (.inl rfl) made').2.1
      · exact (name_of_named (.inr rfl) made').2.1
    exact differ (own.symm.trans same)
  · intro bytes length
    obtain ⟨r, read, written⟩ := exactCodec.written_back bytes length
    have stored := encode_eq_iff.1 written
    refine ⟨r, read, name_of_stored stored, ?_, (Image.decided_name r).ne_abort⟩
    rw [length_name, stored.second]

/-- Twelve characters of three bytes fill the field. -/
theorem named_faithful_full :
    ∃ r, named (List.replicate 12 [0xE8, 0xAA, 0x9E]).flatten fileKind = .ok r
      ∧ r.name = (List.replicate 12 [0xE8, 0xAA, 0x9E]).flatten
      ∧ Image.name r = .ok (List.replicate 12 [0xE8, 0xAA, 0x9E]).flatten := by
  obtain ⟨accepted, _, _, holds, _⟩ :=
    named_faithful (.inr rfl) (List.replicate 12 [0xE8, 0xAA, 0x9E]).flatten
  obtain ⟨r, made⟩ := accepted.2 ⟨Name.wellFormed_iff.1 (by decide), by decide⟩
  exact ⟨r, made, (holds r made).2.1, (holds r made).2.2.2⟩

/-- The empty name is text, is not a dot or two, and has neither a separator nor a zero byte. Only
its length is wrong, and it is refused as invalid. -/
theorem named_empty : (∃ s : String, Bytes.ofString s = [])
    ∧ ([] : Bytes) ≠ Name.current ∧ ([] : Bytes) ≠ Name.parent
    ∧ Bytes.slash ∉ ([] : Bytes) ∧ 0 ∉ ([] : Bytes)
    ∧ ¬ (1 ≤ ([] : Bytes).length ∧ ([] : Bytes).length ≤ Geometry.nameCapacity)
    ∧ named [] fileKind = .error .invalid
    ∧ named [] fileKind ≠ .error (.tooLong ([] : Bytes).length) := by
  refine ⟨Utf8.valid_iff.1 (by decide), by decide, by decide, by decide, by decide, by decide,
    by decide, by decide⟩

end Record

end FlatImage
