import FlatImage.Text.GraphemeExtend
import FlatImage.Text.Hex
import FlatImage.Text.Invisible
import FlatImage.Text.Utf8

/-!
# Quoted text

Names and paths in messages stand between double quotes. A quotation mark, a backslash and the
usual control characters have short escapes, a character that could not be seen on its own or
would be drawn over another one is written by its code point in braces, and everything else stands
as it is.

A path need not be text: its malformed parts are written byte by byte in upper-case hexadecimal.
-/

namespace FlatImage.Quoted

/-- A character written by its code point. -/
def codePoint (c : Char) : List Char :=
  ['\\', 'u', '{'] ++ Nat.toDigits 16 c.toNat ++ ['}']

def escape (c : Char) : List Char :=
  if c = '\x00' then ['\\', '0']
  else if c = '\t' then ['\\', 't']
  else if c = '\r' then ['\\', 'r']
  else if c = '\n' then ['\\', 'n']
  else if c = '"' then ['\\', '"']
  else if c = '\\' then ['\\', '\\']
  else if 0x20 ≤ c.toNat && c.toNat < 0x7F then [c]
  else if GraphemeExtend.drawnOver c.toNat || Invisible.contains c.toNat then codePoint c
  else [c]

def enclose (body : List Char) : String := String.ofList ('"' :: body ++ ['"'])

def ofString (s : String) : String := enclose (s.toList.flatMap escape)

def rawByte (b : UInt8) : List Char := ['\\', 'x'] ++ Hex.byteUpper b

def piece : Utf8.Piece → List Char
  | .char c => escape c
  | .malformed part => part.flatMap rawByte

/-- A path or name in quotation marks, be it text or not. -/
def ofBytes (bytes : Bytes) : String := enclose ((Utf8.pieces bytes).flatMap piece)

end FlatImage.Quoted
