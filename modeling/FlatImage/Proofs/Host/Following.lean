import FlatImage.Host.Resolution
import FlatImage.Proofs.Host.View
import FlatImage.Proofs.Paths

/-!
# What paths lead to

A path that leads to a node leads to one that is there. To follow a longer path is to follow its
first segments to a directory, and then the others from there; links that were followed on the way
are missing afterwards. A joined path is followed in the same way.
-/

namespace FlatImage

namespace Host

variable {h : Host} {last : Bool} {links : Nat} {pending segments : List Bytes}
variable {here dir loc : Location} {node : Node} {path : Path}

theorem at?_of_follow (found : h.follow last links pending here = .ok (.found loc node)) :
    h.at? loc = some node := by
  fun_induction follow h last links pending here with
  | case1 links here node there =>
    cases found
    exact there
  | case3 _ _ _ _ _ ih => exact ih found
  | case4 _ _ _ _ ih => exact ih found
  | case8 _ _ _ _ _ _ _ _ _ _ ih => exact ih found
  | case9 _ _ _ _ _ _ _ target there =>
    cases found
    exact there
  | case11 _ _ _ _ _ _ _ _ _ _ _ ih => exact ih found
  | case12 _ _ _ _ _ _ node _ _ there =>
    cases found
    exact there
  | _ => cases found

/-- Where the first segments lead to a directory, the others are followed from there. Where they do
not, nothing behind them is found. -/
theorem follow_append (h : Host) (links : Nat) (segments : List Bytes) (here : Location) :
    (∃ left dir, ∀ last rest, rest ≠ [] ∨ last = true →
        h.follow last links (segments ++ rest) here = h.follow last left rest dir)
      ∨ (∃ e, ∀ last rest, rest ≠ [] → h.follow last links (segments ++ rest) here = .error e)
        ∧ ∀ dir mtime entries,
          h.follow true links segments here ≠ .ok (.found dir (.directory mtime entries)) := by
  fun_induction follow h true links segments here with
  | case1 links here => exact .inl ⟨links, here, fun _ _ _ => rfl⟩
  | case2 links here => exact .inl ⟨links, here, fun _ _ _ => rfl⟩
  | case3 links here segment others nothing ih =>
    simp only [List.cons_append]
    have skip last rest : h.follow last links (segment :: (others ++ rest)) here
        = h.follow last links (others ++ rest) here := by rw [follow, if_pos nothing]
    simpa only [skip] using ih
  | case4 links here others something ih =>
    simp only [List.cons_append]
    have up last rest : h.follow last links (Name.parent :: (others ++ rest)) here
        = h.follow last links (others ++ rest) (above here) := by
      rw [follow, if_neg something, if_pos rfl]
    simpa only [up] using ih
  | case5 links here segment others something down long =>
    refine .inr ⟨⟨.nameTooLong, fun last rest _ => ?_⟩, nofun⟩
    rw [List.cons_append, follow, if_neg something, if_neg down, if_pos long]
  | case6 links here segment something down short none =>
    refine .inr ⟨⟨.noEntry, fun last rest some => ?_⟩, nofun⟩
    rw [List.cons_append, List.nil_append, follow, if_neg something, if_neg down, if_neg short]
    simp only [none, if_neg some]
  | case7 links here segment others something down short none more =>
    refine .inr ⟨⟨.noEntry, fun last rest some => ?_⟩, nofun⟩
    rw [List.cons_append, follow, if_neg something, if_neg down, if_neg short]
    simp only [none, List.append_eq_nil_iff, more, false_and, if_false]
  | case8 links here segment others something down short mtime entries there ih =>
    have enter last rest : h.follow last links (segment :: (others ++ rest)) here
        = h.follow last links (others ++ rest) (here ++ [segment]) := by
      rw [follow, if_neg something, if_neg down, if_neg short]
      simp only [there]
    simpa only [List.cons_append, enter] using ih
  | case9 links here segment others something down short target there ends =>
    cases ends.2
  | case10 here segment others something down short target there followed =>
    refine .inr ⟨⟨.tooManyLinks, fun last rest some => ?_⟩, nofun⟩
    have inside : ¬ (others ++ rest = [] ∧ (!last) = true) := fun ends =>
      some (List.append_eq_nil_iff.1 ends.1).2
    rw [List.cons_append, follow, if_neg something, if_neg down, if_neg short]
    simp only [there, if_neg inside]
  | case11 here segment others something down short target there followed links start ih =>
    have through last rest (some : rest ≠ [] ∨ last = true) :
        h.follow last (links + 1) (segment :: (others ++ rest)) here
          = h.follow last links (Path.segments target ++ others ++ rest) start := by
      have inside : ¬ (others ++ rest = [] ∧ (!last) = true) := by
        rintro ⟨nil, unfollowed⟩
        rcases some with some | rfl
        · exact some (List.append_eq_nil_iff.1 nil).2
        · cases unfollowed
      rw [follow, if_neg something, if_neg down, if_neg short]
      simp only [there, if_neg inside, List.append_assoc]
      rfl
    obtain ⟨left, dir, found⟩ | ⟨⟨e, refused⟩, lost⟩ := ih
    · refine .inl ⟨left, dir, fun last rest some => ?_⟩
      exact (through last rest some).trans (found last rest some)
    · refine .inr ⟨⟨e, fun last rest some => ?_⟩, lost⟩
      exact (through last rest (.inl some)).trans (refused last rest some)
  | case12 links here segment something down short node other noLink there =>
    refine .inr ⟨⟨.notDirectory, fun last rest some => ?_⟩, ?_⟩
    · rw [List.cons_append, List.nil_append, follow, if_neg something, if_neg down, if_neg short]
      simp only [there, if_neg some]
    · rintro dir mtime entries found
      cases found
      exact other _ _ rfl
  | case13 links here segment others something down short node other noLink there more =>
    refine .inr ⟨⟨.notDirectory, fun last rest some => ?_⟩, nofun⟩
    rw [List.cons_append, follow, if_neg something, if_neg down, if_neg short]
    simp only [there, List.append_eq_nil_iff, more, false_and, if_false]

theorem follow_skip (h : Host) (last : Bool) (links : Nat) (segments : List Bytes)
    {rest : List Bytes} (here : Location) (some : rest ≠ []) :
    h.follow last links (segments ++ [] :: rest) here
      = h.follow last links (segments ++ rest) here := by
  have skip (left : Nat) (dir : Location) :
      h.follow last left ([] :: rest) dir = h.follow last left rest dir := by
    rw [follow, if_pos (.inl rfl)]
  have more : [] :: rest ≠ [] := List.cons_ne_nil [] rest
  obtain ⟨left, dir, found⟩ | ⟨⟨e, lost⟩, _⟩ := h.follow_append links segments here
  · rw [found last _ (.inl more), found last _ (.inl some), skip]
  · rw [lost last _ more, lost last _ some]

/-- The segments of a joined path lead where those of its parts lead, also when more of them
follow. -/
theorem follow_join_append {p q : Path} (some : p ≠ []) (relative : Path.isAbsolute q = false)
    (last : Bool) (links : Nat) (rest : List Bytes) (here : Location) :
    h.follow last links (Path.segments (Path.join p q) ++ rest) here
      = h.follow last links (Path.segments p ++ Path.segments q ++ rest) here := by
  unfold Path.join
  simp only [relative, Bool.false_eq_true, if_false, some, false_or]
  split
  · next ends =>
    obtain ⟨front, rfl⟩ : ∃ front, p = front ++ [Bytes.slash] :=
      List.getLast?_eq_some_iff.1 ends
    have own : Path.segments (front ++ [Bytes.slash]) = Path.segments front ++ [[]] :=
      Path.segments_append_slash front []
    have more : Path.segments q ++ rest ≠ [] :=
      fun none => Path.segments_ne_nil q (List.append_eq_nil_iff.1 none).1
    rw [List.append_assoc, List.singleton_append, Path.segments_append_slash, own,
      List.append_assoc, List.append_assoc, List.append_assoc, List.singleton_append,
      follow_skip _ _ _ _ _ more]
  · rw [Path.segments_append_slash]

theorem follow_join {p q : Path} (some : p ≠ []) (relative : Path.isAbsolute q = false)
    (last : Bool) (links : Nat) (here : Location) :
    h.follow last links (Path.segments (Path.join p q)) here
      = h.follow last links (Path.segments p ++ Path.segments q) here := by
  have whole := follow_join_append (h := h) some relative last links [] here
  rwa [List.append_nil, List.append_nil] at whole

/-- A joined path has a zero byte where one of its parts has. -/
theorem hasZero_join (p : Path) {q : Path} (relative : Path.isAbsolute q = false) :
    hasZero (Path.join p q) = (hasZero p || hasZero q) := by
  obtain joined | joined := Path.join_eq p relative
  · simp [joined, hasZero]
  · simp [joined, hasZero, Bytes.slash]

/-- A path leads where its segments do, unless it is empty or too long. -/
theorem resolve_eq_ok_iff {place : Place} : h.resolve path last = .ok place ↔
    path ≠ [] ∧ path.length < tooLongPath
      ∧ h.follow last mostLinks (Path.segments path) (h.origin path) = .ok place := by
  unfold resolve
  by_cases none : path = []
  · simp [none]
  by_cases long : tooLongPath ≤ path.length
  · simp [none, long, Nat.not_lt_of_le long]
  simp [none, long, Nat.lt_of_not_le long]

theorem lookup_eq_ok_iff :
    h.lookup path last = .ok (loc, node) ↔ h.resolve path last = .ok (.found loc node) := by
  unfold lookup
  cases h.resolve path last with
  | error e => simp
  | ok place => cases place <;> simp

theorem openDirectory_eq_ok_iff : h.openDirectory path last = .ok dir ↔
    hasZero path = false
      ∧ ∃ mtime entries, h.lookup path last = .ok (dir, .directory mtime entries) := by
  unfold openDirectory
  cases hasZero path with
  | true => simp
  | false =>
    cases h.lookup path last with
    | error e => simp
    | ok found =>
      obtain ⟨loc, node⟩ := found
      cases node <;> simp

theorem at?_of_lookup (found : h.lookup path last = .ok (loc, node)) : h.at? loc = some node :=
  at?_of_follow (resolve_eq_ok_iff.1 (lookup_eq_ok_iff.1 found)).2.2

theorem isDirectory_of_openDirectory (opened : h.openDirectory path last = .ok dir) :
    h.IsDirectory dir := by
  obtain ⟨_, mtime, entries, found⟩ := openDirectory_eq_ok_iff.1 opened
  exact isDirectory_iff.2 ⟨mtime, entries, at?_of_lookup found⟩

theorem openDirectory_current (is : h.IsDirectory h.current) :
    h.openDirectory Name.current true = .ok h.current := by
  obtain ⟨mtime, entries, found⟩ := isDirectory_iff.1 is
  refine openDirectory_eq_ok_iff.2 ⟨rfl, mtime, entries, lookup_eq_ok_iff.2 (resolve_eq_ok_iff.2
    ⟨List.cons_ne_nil _ _, by decide, ?_⟩)⟩
  show follow _ _ _ [Name.current] h.current = _
  rw [follow, if_pos (.inr rfl), follow, found]

/-! ## Refused calls -/

theorem guarded_eq_ok_iff {α : Type} {refusal : Option IoError} {result : Except Errno α} {a : α} :
    guarded refusal result = .ok a ↔ refusal = none ∧ result = .ok a := by
  unfold guarded
  cases refusal with
  | some e => simp
  | none => cases result <;> simp [Except.mapError]

end Host

end FlatImage
