import FlatImage.Bytes

/-!
# UTF-8 with damaged parts

A byte string is cut into characters and malformed parts. A malformed part is as long as it can be
while it still starts some well-formed character, and is one byte otherwise, so that each of them
can stand for one replacement character.

Names that are text and names that are not go through the same cut: the bytes are text when no
part is malformed, and the lossy form replaces every malformed part by U+FFFD.
-/

namespace FlatImage.Utf8

/-- A piece of a byte string: a decoded character, or bytes that belong to none. -/
inductive Piece where
  | char (c : Char)
  | malformed (part : Bytes)
  deriving DecidableEq

/-- The number of bytes that follow the first byte of a character, when it is one of several. -/
def following (first : UInt8) : Option Nat :=
  if 0xC2 ≤ first ∧ first ≤ 0xDF then some 1
  else if 0xE0 ≤ first ∧ first ≤ 0xEF then some 2
  else if 0xF0 ≤ first ∧ first ≤ 0xF4 then some 3
  else none

def continues (b : UInt8) : Bool := 0x80 ≤ b && b ≤ 0xBF

/-- A byte that can come second: overlong forms, surrogates and numbers past the last code point
are excluded here, and need no later check. -/
def second (first b : UInt8) : Bool :=
  if first = 0xE0 then 0xA0 ≤ b && b ≤ 0xBF
  else if first = 0xED then 0x80 ≤ b && b ≤ 0x9F
  else if first = 0xF0 then 0x90 ≤ b && b ≤ 0xBF
  else if first = 0xF4 then 0x80 ≤ b && b ≤ 0x8F
  else continues b

/-- The six bits that a continuing byte carries. -/
def payload (b : UInt8) : Nat := b.toNat % 64

/-- Cuts a byte string into its characters and malformed parts. -/
def pieces : Bytes → List Piece
  | [] => []
  | a :: r =>
    if a < 0x80 then .char (Char.ofNat a.toNat) :: pieces r
    else match following a with
      | none => .malformed [a] :: pieces r
      | some n =>
        match r with
        | [] => [.malformed [a]]
        | b :: s =>
          if !second a b then .malformed [a] :: pieces (b :: s)
          else if n = 1 then .char (Char.ofNat (a.toNat % 32 * 64 + payload b)) :: pieces s
          else match s with
            | [] => [.malformed [a, b]]
            | c :: t =>
              if !continues c then .malformed [a, b] :: pieces (c :: t)
              else if n = 2 then
                .char (Char.ofNat ((a.toNat % 16 * 64 + payload b) * 64 + payload c)) :: pieces t
              else match t with
                | [] => [.malformed [a, b, c]]
                | d :: u =>
                  if !continues d then .malformed [a, b, c] :: pieces (d :: u)
                  else
                    .char (Char.ofNat
                      (((a.toNat % 8 * 64 + payload b) * 64 + payload c) * 64 + payload d))
                      :: pieces u

/-- The characters of a sequence of pieces, when none is malformed. -/
def characters? : List Piece → Option (List Char)
  | [] => some []
  | .char c :: rest => (characters? rest).map (c :: ·)
  | .malformed _ :: _ => none

/-- The text that the bytes are the UTF-8 form of, if there is one. -/
def decode? (bytes : Bytes) : Option String :=
  (characters? (pieces bytes)).map String.ofList

def valid (bytes : Bytes) : Bool := (characters? (pieces bytes)).isSome

def Piece.replaced : Piece → Char
  | .char c => c
  | .malformed _ => '\uFFFD'

/-- The text of the bytes with a replacement character for every malformed part. -/
def lossy (bytes : Bytes) : String :=
  String.ofList ((pieces bytes).map Piece.replaced)

theorem isSome_decode? (bytes : Bytes) : (decode? bytes).isSome = valid bytes := by
  simp [decode?, valid]

theorem map_replaced_of_characters? {ps : List Piece} {cs : List Char}
    (h : characters? ps = some cs) : ps.map Piece.replaced = cs := by
  induction ps generalizing cs with
  | nil => simpa [characters?] using h
  | cons p ps ih =>
    cases p with
    | malformed part => simp [characters?] at h
    | char c =>
      obtain ⟨ds, hds, rfl⟩ := Option.map_eq_some_iff.1 h
      simp [Piece.replaced, ih hds]

/-- Nothing is lost of bytes that are text. -/
theorem lossy_of_decode? {bytes : Bytes} {s : String} (h : decode? bytes = some s) :
    lossy bytes = s := by
  obtain ⟨cs, hcs, rfl⟩ := Option.map_eq_some_iff.1 h
  simp [lossy, map_replaced_of_characters? hcs]

end FlatImage.Utf8
