import FlatImage.Dump.Report

/-!
# The lines of a dump

Names, paths and numbers are shown without line breaks, whatever bytes they are made of, so the text
of a dump is cut into the lines that were put together: `splitOn_text`. Of these lines only those
that mark gaps and overlaps start with a star, so no name of an entry can pass for such a mark.
-/

namespace FlatImage.Dump

/-! ## Digits and quotations -/

theorem mem_toDigitsCore {base fuel n : Nat} {ds : List Char} {c : Char} (pos : 0 < base)
    (mem : c ∈ Nat.toDigitsCore base fuel n ds) : c ∈ ds ∨ ∃ d < base, c = Nat.digitChar d := by
  induction fuel generalizing n ds with
  | zero => exact .inl mem
  | succ fuel ih =>
    have own : ∀ c ∈ Nat.digitChar (n % base) :: ds,
        c ∈ ds ∨ ∃ d < base, c = Nat.digitChar d := by
      intro c mem
      obtain rfl | mem := List.mem_cons.1 mem
      · exact .inr ⟨_, Nat.mod_lt n pos, rfl⟩
      · exact .inl mem
    rw [Nat.toDigitsCore] at mem
    split at mem
    · exact own c mem
    · obtain mem | digit := ih mem
      · exact own c mem
      · exact .inr digit

/-- The characters that matter in a dump are no digits. -/
theorem digitChar_ne : ∀ d < 16, Nat.digitChar d ≠ '\n' ∧ Nat.digitChar d ≠ '*'
    ∧ (Nat.digitChar d).toUpper ≠ '\n' := by decide

theorem ne_of_mem_toDigits {base n : Nat} {c : Char} (pos : 0 < base) (small : base ≤ 16)
    (mem : c ∈ Nat.toDigits base n) : c ≠ '\n' ∧ c ≠ '*' := by
  obtain none | ⟨d, lt, rfl⟩ := mem_toDigitsCore pos mem
  · cases none
  · obtain ⟨plain, unmarked, _⟩ := digitChar_ne d (Nat.lt_of_lt_of_le lt small)
    exact ⟨plain, unmarked⟩

theorem newline_notMem_toDigits {base : Nat} (pos : 0 < base) (small : base ≤ 16) (n : Nat) :
    '\n' ∉ Nat.toDigits base n := fun mem => (ne_of_mem_toDigits pos small mem).1 rfl

theorem newline_notMem_escape (c : Char) : '\n' ∉ Quoted.escape c := by
  by_cases is : c = '\n'
  · subst is
    decide
  · have own : '\n' ∉ [c] := fun mem => is (List.mem_singleton.1 mem).symm
    have code : '\n' ∉ Quoted.codePoint c := by
      have digits := newline_notMem_toDigits (by decide : 0 < 16) (Nat.le_refl 16) c.toNat
      simp [Quoted.codePoint, digits]
    -- Every branch is a fixed escape, a code point or the character itself.
    unfold Quoted.escape
    repeat' split
    all_goals first | exact own | exact code | decide

theorem newline_notMem_byte (b : UInt8) : '\n' ∉ Hex.byte b ∧ '\n' ∉ Hex.byteUpper b := by
  have high := digitChar_ne (b.toNat / 16) (by have := b.toNat_lt; omega)
  have low := digitChar_ne (b.toNat % 16) (Nat.mod_lt _ (by decide))
  simp [Hex.byte, Hex.byteUpper, Hex.digit, high.1.symm, low.1.symm, high.2.2.symm, low.2.2.symm]

/-! ## Texts without line breaks -/

/-- The text has no line break. -/
def OneLine (s : String) : Prop := '\n' ∉ s.toList

instance (s : String) : Decidable (OneLine s) := inferInstanceAs (Decidable (_ ∉ _))

theorem toString_string (s : String) : toString s = s := rfl

theorem oneLine_append (a b : String) : OneLine (a ++ b) ↔ OneLine a ∧ OneLine b := by
  simp [OneLine]

theorem oneLine_nat (n : Nat) : OneLine (toString n) := by
  have digits := newline_notMem_toDigits (by decide : 0 < 10) (by decide) n
  simpa [OneLine, toString, Nat.repr] using digits

theorem oneLine_uint8 (n : UInt8) : OneLine (toString n) := oneLine_nat n.toNat

theorem oneLine_uint32 (n : UInt32) : OneLine (toString n) := oneLine_nat n.toNat

theorem oneLine_uint64 (n : UInt64) : OneLine (toString n) := oneLine_nat n.toNat

theorem oneLine_padded (width n : Nat) : OneLine (Hex.padded width n) := by
  have digits := newline_notMem_toDigits (by decide : 0 < 16) (Nat.le_refl 16) n
  simp [OneLine, Hex.padded, digits]

theorem oneLine_aligned (width n : Nat) : OneLine (Hex.aligned width n) := by
  have digits := newline_notMem_toDigits (by decide : 0 < 16) (Nat.le_refl 16) n
  simp [OneLine, Hex.aligned, digits]

theorem oneLine_quoted (bytes : Bytes) : OneLine (Quoted.ofBytes bytes) := by
  have piece (p : Utf8.Piece) : '\n' ∉ Quoted.piece p := by
    cases p with
    | char c => exact newline_notMem_escape c
    | malformed part =>
      intro mem
      obtain ⟨b, _, mem⟩ := List.mem_flatMap.1 mem
      simp [Quoted.rawByte, (newline_notMem_byte b).2] at mem
  simp [OneLine, Quoted.ofBytes, Quoted.enclose, piece]

/-- Bytes are shown on one line, whatever they are. -/
theorem oneLine_shown (bytes : Bytes) : OneLine (shown bytes) := by
  unfold shown
  split
  · exact oneLine_quoted bytes
  · simp [OneLine, Hex.ofBytes, newline_notMem_byte]

theorem oneLine_share (part whole : Nat) : OneLine (Percentage.share part whole) := by
  simp only [Percentage.share, Percentage.text, oneLine_append, oneLine_nat]
  decide

/-- The text starts with a star, as marks do. -/
def Starred (s : String) : Prop := s.toList.head? = some '*'

instance (s : String) : Decidable (Starred s) := inferInstanceAs (Decidable (_ = _))

theorem starred_of_mark {s : String} {mark : List Char} (h : mark <+: s.toList)
    (star : mark.head? = some '*') : Starred s := by
  obtain ⟨rest, same⟩ := h
  rw [Starred, ← same, List.head?_append, star]
  rfl

/-- A line of its own that is no mark. -/
structure Plain (line : String) : Prop where
  one : OneLine line
  unmarked : ¬ Starred line

theorem Plain.append {a b : String} (front : Plain a) (rest : OneLine b)
    (unmarked : a = "" → ¬ Starred b) : Plain (a ++ b) where
  one := (oneLine_append a b).2 ⟨front.one, rest⟩
  unmarked := by
    have first := front.unmarked
    rw [Starred, String.toList_append, List.head?_append]
    rw [Starred] at first
    cases characters : a.toList with
    | nil => exact unmarked (String.toList_inj.1 characters)
    | cons c cs =>
      rw [characters] at first
      exact first

theorem plain_of_decide {line : String} (h : OneLine line ∧ ¬ Starred line) : Plain line :=
  ⟨h.1, h.2⟩

theorem plain_padded (width n : Nat) : Plain (Hex.padded width n) where
  one := oneLine_padded width n
  unmarked := by
    intro starred
    have mem := List.mem_of_head? starred
    simp only [Hex.padded, String.toList_ofList, List.mem_append, List.mem_replicate] at mem
    obtain ⟨_, zero⟩ | digit := mem
    · cases zero
    · exact (ne_of_mem_toDigits (by decide) (Nat.le_refl 16) digit).2 rfl

/-! ## The lines of a report -/

/-- The lines of the report of an image with some findings. -/
def reportLines (img : Image) (size : Nat) (found : List Finding) : List String :=
  headerLines img ++ found.flatMap (Finding.lines img.blockSize.toNat)
    ++ usageLines size (shares img.blockSize.toNat found)

variable {img : Image} {size : Nat} {found : List Finding} {line : String}

theorem lines_append (a b : List String) : lines (a ++ b) = lines a ++ lines b := by
  apply String.toList_inj.1
  simp [lines]

/-- A line that starts with a label and ends with a text. -/
theorem plain_labelled {label rest : String}
    (h : OneLine label ∧ ¬ Starred label ∧ label ≠ "") (one : OneLine rest) :
    Plain (toString label ++ rest) :=
  Plain.append ⟨h.1, h.2.1⟩ one fun empty => absurd empty h.2.2

theorem plain_headerLines (mem : line ∈ headerLines img) : Plain line := by
  have number (label : String) (h : OneLine label ∧ ¬ Starred label ∧ label ≠ "") (n : UInt32) :
      Plain (toString label ++ toString n) := plain_labelled h (oneLine_uint32 n)
  suffices all : ∀ line ∈ headerLines img, Plain line from all line mem
  refine List.forall_mem_cons.2 ⟨plain_of_decide (by decide), List.forall_mem_cons.2
    ⟨plain_labelled (by decide) (oneLine_shown _), List.forall_mem_cons.2
      ⟨plain_labelled (by decide) (oneLine_uint8 _), ?_⟩⟩⟩
  simp only [List.forall_mem_cons]
  exact ⟨number _ (by decide) _, number _ (by decide) _, number _ (by decide) _,
    number _ (by decide) _, number _ (by decide) _, number _ (by decide) _,
    number _ (by decide) _, plain_of_decide (by decide), nofun⟩

theorem plain_recordLine (index : Nat) (r : Record) : Plain (recordLine index r) := by
  have place := oneLine_aligned 4 (index * Geometry.recordSize)
  have kind : OneLine (if r.isDirectory then "dir " else "file") := by
    split <;> decide
  unfold recordLine
  generalize Hex.aligned 4 (index * Geometry.recordSize) = place at *
  generalize (if r.isDirectory then "dir " else "file") = kind at *
  constructor
  · simp only [oneLine_append, toString_string, place, kind, oneLine_shown, oneLine_uint32,
      oneLine_uint64]
    decide
  · simp [Starred, toString_string]

/-- The line of a region's place and size. -/
theorem plain_place {label rest : String} (n : Nat) (h : Plain label) (some : label ≠ "")
    (one : OneLine rest) :
    Plain (toString (Hex.padded 8 n) ++ toString label ++ toString rest) := by
  have front : Plain (Hex.padded 8 n ++ label) :=
    (plain_padded 8 n).append h.one fun _ => h.unmarked
  refine front.append one fun empty => absurd ?_ some
  have none := congrArg String.toList empty
  rw [String.toList_append, String.toList_empty, List.append_eq_nil_iff] at none
  exact String.toList_inj.1 none.2

theorem plain_regionLines {blockSize : Nat} {r : Region} (mem : line ∈ r.lines blockSize) :
    Plain line := by
  have owner : Plain ("# Filename " ++ shown r.path) :=
    plain_labelled (by decide) (oneLine_shown r.path)
  have last : Plain "" := plain_of_decide (by decide)
  suffices all : ∀ line ∈ r.lines blockSize, Plain line from all line mem
  unfold Region.lines
  split
  · refine List.forall_mem_append.2 ⟨List.forall_mem_append.2 ⟨?_, ?_⟩,
      List.forall_mem_singleton.2 last⟩
    · refine List.forall_mem_cons.2 ⟨owner, List.forall_mem_singleton.2 ?_⟩
      refine plain_place _ (plain_of_decide (by decide)) (by decide) ?_
      simp only [oneLine_append, toString_string, oneLine_uint32, oneLine_nat]
      decide
    · intro line mem
      obtain ⟨index, _, rfl⟩ := List.mem_mapIdx.1 mem
      exact plain_recordLine index _
  · refine List.forall_mem_cons.2 ⟨owner, List.forall_mem_cons.2
      ⟨?_, List.forall_mem_singleton.2 last⟩⟩
    refine plain_place _ (plain_of_decide (by decide)) (by decide) ?_
    simp only [oneLine_append, toString_string, oneLine_uint32, oneLine_nat]
    decide

theorem plain_usageLines {shares : List (Usage × Nat)} (mem : line ∈ usageLines size shares) :
    Plain line := by
  obtain rfl | mem := List.mem_cons.1 mem
  · exact ⟨by
      simp only [oneLine_append, toString_string, oneLine_nat]
      decide, by simp [Starred, toString_string]⟩
  · obtain ⟨⟨usage, bytes⟩, _, rfl⟩ := List.mem_map.1 mem
    have name : OneLine usage.name := by cases usage <;> decide
    exact ⟨by
      simp only [oneLine_append, toString_string, oneLine_nat, oneLine_share, name]
      decide, by simp [Starred, toString_string]⟩

theorem oneLine_findingLines {blockSize : Nat} {f : Finding} (mem : line ∈ f.lines blockSize) :
    OneLine line := by
  cases f with
  | region r => exact (plain_regionLines mem).one
  | _ =>
    simp only [Finding.lines, List.mem_cons, List.not_mem_nil, or_false] at mem
    obtain rfl | rfl := mem
    · simp only [oneLine_append, toString_string, oneLine_nat]
      decide
    · decide

theorem oneLine_reportLines (mem : line ∈ reportLines img size found) : OneLine line := by
  simp only [reportLines, List.mem_append, List.mem_flatMap] at mem
  obtain (header | ⟨f, _, body⟩) | usage := mem
  · exact (plain_headerLines header).one
  · exact oneLine_findingLines body
  · exact (plain_usageLines usage).one

/-- Only marks of gaps and overlaps start with a star. -/
theorem mark_of_starred (mem : line ∈ reportLines img size found) (starred : Starred line) :
    ∃ f ∈ found, line ∈ f.lines img.blockSize.toNat ∧ ∀ r, f ≠ .region r := by
  simp only [reportLines, List.mem_append, List.mem_flatMap] at mem
  obtain (header | ⟨f, mem, body⟩) | usage := mem
  · exact absurd starred (plain_headerLines header).unmarked
  · refine ⟨f, mem, body, ?_⟩
    rintro r rfl
    exact (plain_regionLines body).unmarked starred
  · exact absurd starred (plain_usageLines usage).unmarked

/-! ## The text -/

/-- Lines without line breaks are what the text of them is cut into. Nothing follows the end of the
last line. -/
theorem splitOn_lines {ls : List String} (one : ∀ l ∈ ls, OneLine l) :
    (lines ls).toList.splitOn '\n' = ls.map String.toList ++ [[]] := by
  induction ls with
  | nil => rfl
  | cons l ls ih =>
    obtain ⟨own, one⟩ := List.forall_mem_cons.1 one
    have text : (lines (l :: ls)).toList = l.toList ++ '\n' :: (lines ls).toList := by
      simp [lines]
    have before : ∀ c ∈ l.toList, (c == '\n') = false := by
      intro c mem
      rw [beq_eq_false_iff_ne]
      rintro rfl
      exact own mem
    have rest := ih one
    rw [List.splitOn_eq_splitOnP] at rest ⊢
    rw [text, List.splitOnP_append_cons_of_forall_mem before _ (beq_self_eq_true _), rest]
    rfl

variable {bytes : ByteArray} {regions : List Region}

/-- The report of an image with regions. -/
theorem report_eq (opened : Image.ofBytes bytes = .ok img)
    (listed : Dump.regions img = .ok regions) :
    report bytes = ⟨lines (reportLines img bytes.size (findings img regions)), none⟩ := by
  unfold report
  rw [opened]
  dsimp only
  rw [listed]
  dsimp only
  rw [reportLines, lines_append, lines_append]

/-- The text of the report of an image with regions is made of lines without line breaks. -/
theorem splitOn_text (opened : Image.ofBytes bytes = .ok img)
    (listed : Dump.regions img = .ok regions) : (report bytes).text.toList.splitOn '\n'
      = (reportLines img bytes.size (findings img regions)).map String.toList ++ [[]] := by
  have one : ∀ l ∈ reportLines img bytes.size (findings img regions), OneLine l :=
    fun _ => oneLine_reportLines
  have text := congrArg Report.text (report_eq opened listed)
  dsimp only at text
  rw [text, splitOn_lines one]

end FlatImage.Dump
