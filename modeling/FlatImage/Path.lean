import FlatImage.Name

/-!
# Paths

A path is a byte string that separators cut into segments. Empty segments and segments of one dot
mean nothing, except that a dot at the very start is kept as a component, as a separator at the
very start is. Two dots are a component of their own here: nothing is cancelled, because what lies
above a directory depends on the file system.

Messages show paths as they were given, so `parent?` and `join` work on the bytes and keep repeated
separators wherever they do not remove the segments around them.
-/

namespace FlatImage

/-- A path, relative or absolute. -/
abbrev Path := Bytes

namespace Path

/-- What a path is made of. -/
inductive Component where
  | root
  | current
  | parent
  | normal (name : Bytes)
  deriving DecidableEq

/-- The segments between separators, with the empty ones. There is always at least one. -/
def segments : Path → List Bytes
  | [] => [[]]
  | b :: rest =>
    if b = Bytes.slash then [] :: segments rest
    else match segments rest with
      | [] => [[b]]
      | first :: others => (b :: first) :: others

/-- Segments with a separator between any two. -/
def ofSegments : List Bytes → Path
  | [] => []
  | [s] => s
  | s :: rest => s ++ Bytes.slash :: ofSegments rest

/-- The component that a segment stands for, if it stands for one. -/
def Component.ofSegment? (s : Bytes) : Option Component :=
  if s = [] ∨ s = Name.current then none
  else if s = Name.parent then some .parent
  else some (.normal s)

def isAbsolute (p : Path) : Bool := p.head? == some Bytes.slash

def components (p : Path) : List Component :=
  match segments p with
  | [] => []
  | first :: others =>
    let start : List Component :=
      if isAbsolute p then [.root]
      else if first = Name.current then [.current]
      else (Component.ofSegment? first).toList
    start ++ others.filterMap Component.ofSegment?

/-- The last component when it is a name. -/
def fileName? (p : Path) : Option Bytes :=
  match (components p).getLast? with
  | some (.normal name) => some name
  | _ => none

/-- The first byte when it is a component of its own: a separator, or a dot that stands alone. -/
def start (p : Path) : Path :=
  if isAbsolute p || (segments p).head? == some Name.current then p.take 1 else []

/-- Segments without those at the end that stand for nothing. -/
def trimEnd (ss : List Bytes) : List Bytes :=
  (ss.reverse.dropWhile fun s => (Component.ofSegment? s).isNone).reverse

/-- The path without its last component, as it was written. The root and the empty path have no
parent; the parent of a lone dot is the empty path. -/
def parent? (p : Path) : Option Path :=
  let head := start p
  match trimEnd (segments (p.drop head.length)) with
  | [] => if head = Name.current then some [] else none
  | body => some (head ++ ofSegments (trimEnd body.dropLast))

/-- The path of `q` seen from `p`: an absolute `q` replaces `p`, and any other one follows it after
a separator. -/
def join (p q : Path) : Path :=
  if isAbsolute q then q
  else if p = [] ∨ p.getLast? = some Bytes.slash then p ++ q
  else p ++ Bytes.slash :: q

@[simp] theorem segments_ne_nil (p : Path) : segments p ≠ [] := by
  cases p with
  | nil => simp [segments]
  | cons b rest =>
    unfold segments
    split
    · simp
    · split <;> simp

/-- Cutting a path loses nothing but the separators, which joining puts back. -/
theorem ofSegments_segments (p : Path) : ofSegments (segments p) = p := by
  induction p with
  | nil => rfl
  | cons b rest ih =>
    unfold segments
    split
    · next h =>
      subst h
      match hs : segments rest, segments_ne_nil rest with
      | s :: ss, _ => rw [hs] at ih; simp [ofSegments, ih]
    · match hs : segments rest, segments_ne_nil rest with
      | [s], _ => rw [hs] at ih; simpa [ofSegments] using ih
      | s :: t :: ss, _ => rw [hs] at ih; simpa [ofSegments] using ih

/-- No separator is left in a segment. -/
theorem slash_notMem_of_mem_segments {p : Path} {s : Bytes} (h : s ∈ segments p) :
    Bytes.slash ∉ s := by
  induction p generalizing s with
  | nil => simp [segments] at h; simp [h]
  | cons b rest ih =>
    unfold segments at h
    split at h
    · rcases List.mem_cons.1 h with rfl | h
      · simp
      · exact ih h
    · next hb =>
      match hs : segments rest, segments_ne_nil rest with
      | t :: ts, _ =>
        rw [hs] at h ih
        rcases List.mem_cons.1 h with rfl | h
        · simp [Ne.symm hb, ih List.mem_cons_self]
        · exact ih (List.mem_cons_of_mem _ h)

end Path

end FlatImage
