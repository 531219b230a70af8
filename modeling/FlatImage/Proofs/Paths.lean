import FlatImage.Path
import Mathlib.Data.List.DropRight

/-!
# Paths and their components

Two paths with a separator between them have the segments of both. So what a path is made of can be
read off its segments, and the parent of a path, which is cut out of its bytes, has all of its
components but the last: `components_of_fileName?`. The bytes that are cut away with the last
segment stand for nothing.
-/

namespace FlatImage.Path

/-- Segments of two paths with a separator between them. -/
theorem segments_append_slash (p q : Path) :
    segments (p ++ Bytes.slash :: q) = segments p ++ segments q := by
  induction p with
  | nil => simp [segments]
  | cons b rest ih =>
    simp only [List.cons_append, segments, ih]
    split
    · rfl
    · cases found : segments rest with
      | nil => exact absurd found (segments_ne_nil rest)
      | cons first others => rfl

theorem segments_of_notMem {s : Bytes} (none : Bytes.slash ∉ s) : segments s = [s] := by
  induction s with
  | nil => rfl
  | cons b rest ih =>
    obtain ⟨first, others⟩ := not_or.1 (mt List.mem_cons.2 none)
    rw [segments, if_neg (Ne.symm first), ih others]

theorem isAbsolute_join {p q : Path} (some : p ≠ []) (relative : isAbsolute q = false) :
    isAbsolute (join p q) = isAbsolute p := by
  cases p with
  | nil => exact absurd rfl some
  | cons b rest =>
    unfold join
    rw [relative]
    simp only [Bool.false_eq_true, if_false]
    split <;> rfl

/-- What a joined path is, when the second part is relative. -/
theorem join_eq (p : Path) {q : Path} (relative : isAbsolute q = false) :
    join p q = p ++ q ∨ join p q = p ++ Bytes.slash :: q := by
  unfold join
  rw [relative]
  simp only [Bool.false_eq_true, if_false]
  split
  · exact .inl rfl
  · exact .inr rfl

/-! ## Segments that stand for something -/

/-- Segments without separators are what a path of them is cut into. -/
theorem segments_ofSegments {ss : List Bytes} (some : ss ≠ [])
    (plain : ∀ s ∈ ss, Bytes.slash ∉ s) : segments (ofSegments ss) = ss := by
  induction ss with
  | nil => exact absurd rfl some
  | cons s rest ih =>
    obtain ⟨first, others⟩ := List.forall_mem_cons.1 plain
    cases rest with
    | nil => exact segments_of_notMem first
    | cons t rest =>
      rw [ofSegments, segments_append_slash, segments_of_notMem first,
        ih (List.cons_ne_nil t rest) others]
      · rfl
      · exact List.cons_ne_nil t rest

/-- The components that segments stand for, wherever they are in a path but at its start. -/
def inner (ss : List Bytes) : List Component := ss.filterMap Component.ofSegment?

/-- No segments and one that is empty stand for the same, which is nothing. -/
theorem inner_segments_ofSegments {ss : List Bytes} (plain : ∀ s ∈ ss, Bytes.slash ∉ s) :
    inner (segments (ofSegments ss)) = inner ss := by
  cases ss with
  | nil => rfl
  | cons s rest => rw [segments_ofSegments (List.cons_ne_nil s rest) plain]

theorem trimEnd_concat (ss : List Bytes) (s : Bytes) : trimEnd (ss ++ [s])
    = if (Component.ofSegment? s).isNone then trimEnd ss else ss ++ [s] :=
  List.rdropWhile_concat ..

theorem prefix_trimEnd (ss : List Bytes) : trimEnd ss <+: ss := List.rdropWhile_prefix _ ss

theorem inner_trimEnd (ss : List Bytes) : inner (trimEnd ss) = inner ss := by
  induction ss using List.reverseRecOn with
  | nil => rfl
  | append_singleton ss s ih =>
    rw [trimEnd_concat]
    split
    · next nothing =>
      rw [ih, inner, inner, List.filterMap_append, List.filterMap_cons_none
        (Option.isNone_iff_eq_none.1 nothing), List.filterMap_nil, List.append_nil]
    · rfl

/-- After trimming, the last segment stands for the last component. -/
theorem trimEnd_of_inner {ss : List Bytes} {cs : List Component} {c : Component}
    (is : inner ss = cs ++ [c]) : ∃ body s, trimEnd ss = body ++ [s] ∧ inner body = cs
      ∧ Component.ofSegment? s = some c := by
  induction ss using List.reverseRecOn with
  | nil => exact absurd is.symm (by simp [inner])
  | append_singleton ss s ih =>
    rw [trimEnd_concat]
    cases stands : Component.ofSegment? s with
    | none =>
      refine ih ?_
      rwa [inner, List.filterMap_append, List.filterMap_cons_none stands, List.filterMap_nil,
        List.append_nil] at is
    | some last =>
      rw [inner, List.filterMap_append, List.filterMap_cons_some stands, List.filterMap_nil] at is
      obtain ⟨front, same⟩ := List.append_inj' is rfl
      exact ⟨ss, s, rfl, front, stands.trans (congrArg some (List.singleton_inj.1 same))⟩

/-! ## The parent of a path -/

theorem isAbsolute_iff {p : Path} :
    isAbsolute p ↔ ∃ rest, segments p = [] :: rest ∧ rest ≠ [] := by
  cases p with
  | nil => simp [isAbsolute, segments]
  | cons b r =>
    by_cases is : b = Bytes.slash
    · simp [is, isAbsolute, segments]
    · have some := segments_ne_nil r
      cases cut : segments r with
      | nil => exact absurd cut some
      | cons first others => simp [is, isAbsolute, segments, cut]

theorem components_of_isAbsolute (r : Path) :
    components (Bytes.slash :: r) = .root :: inner (segments r) := by
  simp [components, segments, isAbsolute, inner]

/-- A path that starts neither with a separator nor with a dot that stands alone is made of what its
segments stand for. -/
theorem components_of_plain {p : Path} (relative : isAbsolute p = false)
    (start : (segments p).head? ≠ some Name.current) : components p = inner (segments p) := by
  unfold components
  match found : segments p, segments_ne_nil p with
  | first :: others, _ =>
    rw [found] at start
    have other : first ≠ Name.current := fun is => start (congrArg some is)
    simp only [relative, Bool.false_eq_true, if_false, if_neg other, inner, List.filterMap_cons]
    cases Component.ofSegment? first <;> rfl

/-- A path that starts with a dot that stands alone is that dot, or goes on behind a separator. -/
theorem eq_of_head?_segments {p : Path} (start : (segments p).head? = some Name.current) :
    p = [Bytes.dot] ∨ ∃ r, p = Bytes.dot :: Bytes.slash :: r := by
  have whole := ofSegments_segments p
  match found : segments p, segments_ne_nil p with
  | first :: others, _ =>
    rw [found] at start whole
    obtain rfl : first = Name.current := Option.some.inj start
    cases others with
    | nil => exact .inl whole.symm
    | cons second others => exact .inr ⟨_, whole.symm⟩

theorem components_of_current (r : Path) :
    components (Bytes.dot :: Bytes.slash :: r) = .current :: inner (segments r) := by
  have cut : segments (Bytes.dot :: Bytes.slash :: r) = Name.current :: segments r :=
    segments_append_slash [Bytes.dot] r
  have relative : isAbsolute (Bytes.dot :: Bytes.slash :: r) = false := by
    simp [isAbsolute, Bytes.dot, Bytes.slash]
  simp [components, cut, relative, inner]

/-- What is in front of the last segment that stands for something is in front of all of them. -/
theorem front_of_trimEnd {body ss : List Bytes} {s : Bytes} (cut : trimEnd ss = body ++ [s]) :
    body <+: ss := (List.prefix_append body [s]).trans (cut ▸ prefix_trimEnd ss)

theorem slash_notMem_of_front {ss : List Bytes} {p : Path} (front : ss <+: segments p) :
    ∀ s ∈ ss, Bytes.slash ∉ s := fun _ mem => slash_notMem_of_mem_segments (front.subset mem)

private theorem exists_of_getLast? {c : Component} {cs : List Component} {name : Bytes}
    (last : (c :: cs).getLast? = some (.normal name)) (ne : c ≠ .normal name) :
    ∃ front, cs = front ++ [.normal name] := by
  obtain ⟨front, is⟩ := List.getLast?_eq_some_iff.1 last
  cases front with
  | nil => exact absurd (List.cons.inj is).1 ne
  | cons first front => exact ⟨front, (List.cons.inj is).2⟩

/-- The parent is what is left in front of the last segment that stands for something. -/
theorem parent?_of_trimEnd {p : Path} (head : Path) {body : List Bytes} {s : Bytes}
    (is : start p = head) (cut : trimEnd (segments (p.drop head.length)) = body ++ [s]) :
    parent? p = some (head ++ ofSegments (trimEnd body)) := by
  unfold parent?
  simp only [is, cut]
  split
  · next none => exact absurd none (by simp)
  · rw [List.dropLast_concat]

/-- A dot that stands alone, with segments behind it. Trimming may leave nothing but the dot. -/
theorem components_of_trimmed {body : List Bytes} (plain : ∀ t ∈ body, Bytes.slash ∉ t) :
    components (Name.current ++ ofSegments (trimEnd ([] :: body))) = .current :: inner body := by
  have same : inner (trimEnd ([] :: body)) = inner body := inner_trimEnd ([] :: body)
  rw [← same]
  obtain ⟨rest, split⟩ := prefix_trimEnd ([] :: body)
  cases left : trimEnd ([] :: body) with
  | nil => rfl
  | cons first others =>
    rw [left, List.cons_append] at split
    obtain ⟨rfl, rfl⟩ := List.cons.inj split
    have plain : ∀ t ∈ others, Bytes.slash ∉ t :=
      fun t mem => plain t (List.mem_append_left rest mem)
    cases others with
    | nil => rfl
    | cons second others =>
      refine (components_of_current (ofSegments (second :: others))).trans ?_
      rw [inner_segments_ofSegments plain]
      rfl

/-- A path that starts like one without a separator or a lone dot at its start has none either. -/
theorem components_ofSegments {p : Path} (relative : ¬ isAbsolute p)
    (dotless : (segments p).head? ≠ some Name.current) {ss : List Bytes}
    (front : ss <+: segments p) : components (ofSegments ss) = inner ss := by
  have plain := slash_notMem_of_front front
  obtain ⟨rest, split⟩ := front
  cases ss with
  | nil => rfl
  | cons first others =>
    have cut := segments_ofSegments (List.cons_ne_nil first others) plain
    have relative' : isAbsolute (ofSegments (first :: others)) = false := by
      rw [Bool.eq_false_iff, ne_eq, isAbsolute_iff, cut]
      rintro ⟨more, is, some⟩
      refine relative (isAbsolute_iff.2 ⟨more ++ rest, ?_, by simp [some]⟩)
      rw [← split, is, List.cons_append]
    have dotless' : (segments (ofSegments (first :: others))).head? ≠ some Name.current := by
      rwa [← split, List.cons_append, List.head?_cons, ← List.head?_cons (l := others), ← cut]
        at dotless
    rw [components_of_plain relative' dotless', cut]

/-- Where the last of the components is a name, there is a parent, and it has all the others. -/
theorem components_of_fileName? {p : Path} {name : Bytes} (is : fileName? p = some name) :
    ∃ q, parent? p = some q ∧ components p = components q ++ [.normal name] := by
  have last : (components p).getLast? = some (.normal name) := by
    unfold fileName? at is
    split at is
    · next found =>
      cases is
      exact found
    · cases is
  by_cases absolute : isAbsolute p
  · obtain ⟨r, rfl⟩ : ∃ r, p = Bytes.slash :: r := by
      cases p with
      | nil => cases absolute
      | cons b r => exact ⟨r, by simpa [isAbsolute] using absolute⟩
    rw [components_of_isAbsolute] at last ⊢
    obtain ⟨cs, named⟩ := exists_of_getLast? last nofun
    obtain ⟨body, s, cut, rest, _⟩ := trimEnd_of_inner named
    have left := components_of_isAbsolute (ofSegments (trimEnd body))
    have front := (prefix_trimEnd body).trans (front_of_trimEnd cut)
    rw [inner_segments_ofSegments (slash_notMem_of_front front), inner_trimEnd, rest] at left
    refine ⟨_, parent?_of_trimEnd [Bytes.slash] (by simp [start, absolute]) cut, ?_⟩
    rw [named, ← List.cons_append]
    exact congrArg (· ++ _) left.symm
  by_cases dotted : (segments p).head? = some Name.current
  · obtain rfl | ⟨r, rfl⟩ := eq_of_head?_segments dotted
    · cases last
    rw [components_of_current] at last ⊢
    obtain ⟨cs, named⟩ := exists_of_getLast? last nofun
    -- The dot is cut off first, so an empty segment is left in front of the others.
    have behind : inner (segments (Bytes.slash :: r)) = cs ++ [.normal name] := named
    obtain ⟨body, s, cut, rest, stands⟩ := trimEnd_of_inner behind
    have front := slash_notMem_of_front (front_of_trimEnd cut)
    obtain ⟨more, split⟩ := cut ▸ prefix_trimEnd (segments (Bytes.slash :: r))
    cases body with
    | nil =>
      obtain ⟨rfl, _⟩ := List.cons.inj split
      cases stands
    | cons first others =>
      obtain ⟨rfl, _⟩ := List.cons.inj split
      refine ⟨_, parent?_of_trimEnd [Bytes.dot] (by simp [start, dotted]) cut, ?_⟩
      have left := components_of_trimmed (List.forall_mem_cons.1 front).2
      have rest : inner others = cs := rest
      rw [named, ← List.cons_append, ← rest]
      exact congrArg (· ++ _) left.symm
  · rw [components_of_plain (Bool.eq_false_iff.2 absolute) dotted] at last ⊢
    obtain ⟨cs, named⟩ := List.getLast?_eq_some_iff.1 last
    obtain ⟨body, s, cut, rest, _⟩ := trimEnd_of_inner named
    have front := (prefix_trimEnd body).trans (front_of_trimEnd cut)
    have left := components_ofSegments absolute dotted front
    rw [inner_trimEnd, rest] at left
    refine ⟨_, parent?_of_trimEnd [] (by simp [start, absolute, dotted]) cut, ?_⟩
    rw [named]
    exact congrArg (· ++ _) left.symm

end FlatImage.Path
