/-!
# Short byte strings

Names and paths are lists of bytes: they are short, they need not be text, and every rule about
them is a recursion on the list. File contents and whole images are `ByteArray`s instead; their
operations are in `FlatImage.Buffer`.
-/

namespace FlatImage

/-- A name, a path, or another short byte string that need not be text. -/
abbrev Bytes := List UInt8

namespace Bytes

def slash : UInt8 := 0x2F

/-- The byte that the components `.` and `..` are made of. -/
def dot : UInt8 := 0x2E

/-- The UTF-8 form of a text. -/
def ofString (s : String) : Bytes := s.toByteArray.data.toList

def toBuffer (bytes : Bytes) : ByteArray := ⟨bytes.toArray⟩

def ofBuffer (buffer : ByteArray) : Bytes := buffer.data.toList

@[simp] theorem ofBuffer_toBuffer (bytes : Bytes) : ofBuffer bytes.toBuffer = bytes := rfl

@[simp] theorem size_toBuffer (bytes : Bytes) : bytes.toBuffer.size = bytes.length := rfl

/-- Byte order: the first difference decides, and a proper start comes before what it starts. -/
def before : Bytes → Bytes → Bool
  | _, [] => false
  | [], _ :: _ => true
  | a :: as, b :: bs => a < b || (a == b && before as bs)

@[simp] theorem before_nil (as : Bytes) : before as [] = false := by cases as <;> rfl

@[simp] theorem nil_before_cons (b : UInt8) (bs : Bytes) : before [] (b :: bs) = true := rfl

@[simp] theorem before_irrefl (as : Bytes) : before as as = false := by
  induction as with
  | nil => rfl
  | cons a as ih => simp [before, ih]

theorem before_trans {as bs cs : Bytes} (hab : before as bs) (hbc : before bs cs) :
    before as cs := by
  induction as generalizing bs cs with
  | nil =>
    cases cs with
    | nil => simp at hbc
    | cons c cs => rfl
  | cons a as ih =>
    cases bs with
    | nil => simp at hab
    | cons b bs =>
      cases cs with
      | nil => simp at hbc
      | cons c cs =>
        simp only [before, Bool.or_eq_true, Bool.and_eq_true, decide_eq_true_eq,
          beq_iff_eq] at hab hbc ⊢
        rcases hab with hab | ⟨rfl, hab⟩
        · rcases hbc with hbc | ⟨rfl, _⟩
          · exact .inl (UInt8.lt_trans hab hbc)
          · exact .inl hab
        · rcases hbc with hbc | ⟨rfl, hbc⟩
          · exact .inl hbc
          · exact .inr ⟨rfl, ih hab hbc⟩

/-- Of two different byte strings, one comes before the other. -/
theorem before_trichotomy (as bs : Bytes) : before as bs ∨ as = bs ∨ before bs as := by
  induction as generalizing bs with
  | nil => cases bs <;> simp
  | cons a as ih =>
    cases bs with
    | nil => simp
    | cons b bs =>
      simp only [before, Bool.or_eq_true, Bool.and_eq_true, decide_eq_true_eq, beq_iff_eq,
        List.cons.injEq]
      rcases Nat.lt_trichotomy a.toNat b.toNat with h | h | h
      · exact .inl (.inl h)
      · obtain rfl := UInt8.toNat_inj.1 h
        rcases ih bs with h | rfl | h
        · exact .inl (.inr ⟨rfl, h⟩)
        · exact .inr (.inl ⟨rfl, rfl⟩)
        · exact .inr (.inr (.inr ⟨rfl, h⟩))
      · exact .inr (.inr (.inl h))

end Bytes

end FlatImage
