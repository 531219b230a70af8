import FlatImage.Bytes

/-!
# Hexadecimal text

Numbers and bytes in base sixteen. Lower-case digits are the rule; the one upper-case form is for
the bytes of a path that are not text.
-/

namespace FlatImage.Hex

/-- The lower-case digits of a number, without leading zeros. -/
def ofNat (n : Nat) : String := String.ofList (Nat.toDigits 16 n)

/-- A number filled up with zeros on the left. -/
def padded (width n : Nat) : String :=
  let digits := Nat.toDigits 16 n
  String.ofList (List.replicate (width - digits.length) '0' ++ digits)

/-- A number filled up with blanks on the right. -/
def aligned (width n : Nat) : String :=
  let digits := Nat.toDigits 16 n
  String.ofList (digits ++ List.replicate (width - digits.length) ' ')

def digit (n : Nat) : Char := Nat.digitChar n

def byte (b : UInt8) : List Char := [digit (b.toNat / 16), digit (b.toNat % 16)]

def byteUpper (b : UInt8) : List Char := (byte b).map Char.toUpper

/-- Two lower-case digits for every byte. -/
def ofBytes (bytes : Bytes) : String := String.ofList (bytes.flatMap byte)

end FlatImage.Hex
