import FlatImage.Reader

/-!
# What a reader hands out

A reader is described by the bytes that are still ahead of it. Reading takes some of them from the
front, and how a source cuts them into pieces makes no difference.
-/

namespace FlatImage.Reader

/-- The bytes that have not been read yet. -/
def ahead (r : Reader) : Bytes := r.content.toList.drop r.position

/-- One piece is the next bytes, and the others are still ahead. It is empty only where nothing was
asked for or nothing is ahead. -/
theorem read_eq (r : Reader) (want : Nat) :
    ∃ n ≤ want, (r.pieces = [] → n = want) ∧ (0 < want → 0 < n)
      ∧ (r.read want).1.toList = r.ahead.take n ∧ (r.read want).2.ahead = r.ahead.drop n
      ∧ (r.read want).2.toSource = r.toSource := by
  have past (n : Nat) : r.content.toList.drop (r.position + min n r.left) = r.ahead.drop n := by
    rw [ahead, List.drop_drop]
    rcases Nat.le_total n r.left with short | long
    · rw [Nat.min_eq_left short]
    · have size : r.content.toList.length ≤ r.position + r.left := by
        rw [Blob.length_toList, left]
        omega
      rw [Nat.min_eq_right long, List.drop_eq_nil_of_le size,
        List.drop_eq_nil_of_le (Nat.le_trans size (Nat.add_le_add_left long _))]
  rcases r with ⟨source, position, _ | ⟨most, pieces⟩⟩
  · exact ⟨want, Nat.le_refl _, fun _ => rfl, id, Blob.toList_slice .., past want, rfl⟩
  · exact ⟨_, Nat.min_le_left .., nofun, fun pos => by omega, Blob.toList_slice .., past _, rfl⟩

private theorem take_append_take (bytes : Bytes) {n want : Nat} (h : n ≤ want) :
    bytes.take n ++ (bytes.drop n).take (want - (bytes.take n).length) = bytes.take want
      ∧ (bytes.drop n).drop (want - (bytes.take n).length) = bytes.drop want := by
  rcases Nat.le_total n bytes.length with short | long
  · rw [List.length_take, Nat.min_eq_left short, ← List.take_add, List.drop_drop,
      Nat.add_sub_cancel' h]
    exact ⟨rfl, rfl⟩
  · have more := Nat.le_trans long h
    rw [List.drop_eq_nil_of_le long, List.take_nil, List.drop_nil, List.append_nil,
      List.take_of_length_le long, List.take_of_length_le more, List.drop_eq_nil_of_le more]
    exact ⟨rfl, rfl⟩

/-- Reading on gives the bytes ahead, as many as are wanted, whatever the pieces are. -/
theorem fill_eq (source : Source) (pieces : List Nat) (position want : Nat) :
    (fill source pieces position want).1.toList
        = (ahead ⟨source, position, pieces⟩).take want
      ∧ (fill source pieces position want).2.ahead
        = (ahead ⟨source, position, pieces⟩).drop want
      ∧ (fill source pieces position want).2.toSource = source := by
  induction pieces generalizing position want with
  | nil =>
    obtain ⟨n, _, all, _, piece, next, same⟩ := read_eq ⟨source, position, []⟩ want
    obtain rfl := all rfl
    exact ⟨piece, next, same⟩
  | cons most pieces ih =>
    rw [fill]
    by_cases done : want = 0 ∨ source.content.size ≤ position
    · rw [if_pos done]
      have none : (ahead ⟨source, position, most :: pieces⟩).take want = [] := by
        obtain rfl | short := done
        · rfl
        · rw [ahead, List.drop_eq_nil_of_le (by rwa [Blob.length_toList]), List.take_nil]
      have all : (ahead ⟨source, position, most :: pieces⟩).drop want
          = ahead ⟨source, position, most :: pieces⟩ := by
        have := List.take_append_drop want (ahead ⟨source, position, most :: pieces⟩)
        rwa [none] at this
      exact ⟨by rw [none]; rfl, all.symm, rfl⟩
    · rw [if_neg done]
      obtain ⟨n, less, _, _, piece, next, _⟩ := read_eq ⟨source, position, most :: pieces⟩ want
      have size := Blob.length_toList (read ⟨source, position, most :: pieces⟩ want).1
      rw [piece] at size
      obtain ⟨taken, dropped⟩ := take_append_take (ahead ⟨source, position, most :: pieces⟩) less
      obtain ⟨rest, last, same⟩ :=
        ih (read ⟨source, position, most :: pieces⟩ want).2.position
          (want - (read ⟨source, position, most :: pieces⟩ want).1.size)
      refine ⟨?_, ?_, same⟩
      · rw [Blob.toList_append, piece, rest, ← taken, size]
        exact congrArg (_ ++ List.take _ ·) next
      · rw [last, ← dropped, size]
        exact congrArg (List.drop _ ·) next

/-- Collecting fails only where a source fails and fewer bytes than wanted are ahead. -/
theorem collect_eq (r : Reader) (want : Nat) :
    r.collect want = match r.failure with
      | some e =>
        if r.ahead.length < want then .error e
        else .ok (fill r.toSource r.pieces r.position want)
      | none => .ok (fill r.toSource r.pieces r.position want) := by
  have size : (fill r.toSource r.pieces r.position want).1.size < want
      ↔ r.ahead.length < want := by
    rw [← Blob.length_toList, (fill_eq ..).1, List.length_take]
    change min want r.ahead.length < want ↔ _
    omega
  unfold collect
  cases r.failure with
  | none => rfl
  | some e =>
    by_cases short : r.ahead.length < want
    · exact (if_pos (size.2 short)).trans (if_pos short).symm
    · exact (if_neg (mt size.1 short)).trans (if_neg short).symm

/-- Bytes that were collected are those ahead, fewer than wanted only where a source ends. -/
theorem collect_eq_ok {r rest : Reader} {want : Nat} {bytes : Blob}
    (h : r.collect want = .ok (bytes, rest)) :
    bytes.toList = r.ahead.take want ∧ rest.ahead = r.ahead.drop want
      ∧ rest.failure = r.failure ∧ (r.failure = none ∨ want ≤ r.ahead.length) := by
  have filled : fill r.toSource r.pieces r.position want = (bytes, rest)
      ∧ (r.failure = none ∨ want ≤ r.ahead.length) := by
    rw [collect_eq] at h
    cases failing : r.failure with
    | none =>
      simp only [failing] at h
      exact ⟨Except.ok.inj h, .inl rfl⟩
    | some e =>
      simp only [failing] at h
      by_cases short : r.ahead.length < want
      · rw [if_pos short] at h
        cases h
      · rw [if_neg short] at h
        exact ⟨Except.ok.inj h, .inr (Nat.le_of_not_lt short)⟩
  obtain ⟨taken, left, same⟩ := fill_eq r.toSource r.pieces r.position want
  rw [filled.1] at taken left same
  exact ⟨taken, left, congrArg Source.failure same, filled.2⟩

theorem collect_eq_error {r : Reader} {want : Nat} {e : IoError} (h : r.collect want = .error e) :
    r.failure = some e ∧ r.ahead.length < want := by
  rw [collect_eq] at h
  cases failing : r.failure with
  | none =>
    simp only [failing] at h
    cases h
  | some cause =>
    simp only [failing] at h
    by_cases short : r.ahead.length < want
    · rw [if_pos short] at h
      obtain rfl := Except.error.inj h
      exact ⟨rfl, short⟩
    · rw [if_neg short] at h
      cases h

end FlatImage.Reader
