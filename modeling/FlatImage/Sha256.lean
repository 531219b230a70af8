import FlatImage.BigEndian
import FlatImage.Text.Hex

/-!
# SHA-256

The digest of FIPS 180-4. A message is padded to whole blocks of sixty-four bytes, and every block
changes eight chaining words through sixty-four rounds.
-/

namespace FlatImage.Sha256

/-- The eight words that are carried from round to round and from block to block. -/
structure Chain where
  a : UInt32
  b : UInt32
  c : UInt32
  d : UInt32
  e : UInt32
  f : UInt32
  g : UInt32
  h : UInt32

def initial : Chain :=
  ⟨0x6A09E667, 0xBB67AE85, 0x3C6EF372, 0xA54FF53A, 0x510E527F, 0x9B05688C, 0x1F83D9AB, 0x5BE0CD19⟩

/-- One constant for each round. -/
def constants : List UInt32 := [
  0x428A2F98, 0x71374491, 0xB5C0FBCF, 0xE9B5DBA5, 0x3956C25B, 0x59F111F1, 0x923F82A4, 0xAB1C5ED5,
  0xD807AA98, 0x12835B01, 0x243185BE, 0x550C7DC3, 0x72BE5D74, 0x80DEB1FE, 0x9BDC06A7, 0xC19BF174,
  0xE49B69C1, 0xEFBE4786, 0x0FC19DC6, 0x240CA1CC, 0x2DE92C6F, 0x4A7484AA, 0x5CB0A9DC, 0x76F988DA,
  0x983E5152, 0xA831C66D, 0xB00327C8, 0xBF597FC7, 0xC6E00BF3, 0xD5A79147, 0x06CA6351, 0x14292967,
  0x27B70A85, 0x2E1B2138, 0x4D2C6DFC, 0x53380D13, 0x650A7354, 0x766A0ABB, 0x81C2C92E, 0x92722C85,
  0xA2BFE8A1, 0xA81A664B, 0xC24B8B70, 0xC76C51A3, 0xD192E819, 0xD6990624, 0xF40E3585, 0x106AA070,
  0x19A4C116, 0x1E376C08, 0x2748774C, 0x34B0BCB5, 0x391C0CB3, 0x4ED8AA4A, 0x5B9CCA4F, 0x682E6FF3,
  0x748F82EE, 0x78A5636F, 0x84C87814, 0x8CC70208, 0x90BEFFFA, 0xA4506CEB, 0xBEF9A3F7, 0xC67178F2]

def rotate (x n : UInt32) : UInt32 := (x >>> n) ||| (x <<< (32 - n))

def sum0 (x : UInt32) : UInt32 := rotate x 2 ^^^ rotate x 13 ^^^ rotate x 22

def sum1 (x : UInt32) : UInt32 := rotate x 6 ^^^ rotate x 11 ^^^ rotate x 25

def sigma0 (x : UInt32) : UInt32 := rotate x 7 ^^^ rotate x 18 ^^^ (x >>> 3)

def sigma1 (x : UInt32) : UInt32 := rotate x 17 ^^^ rotate x 19 ^^^ (x >>> 10)

/-- The big-endian word at an offset of the padded message. -/
def wordAt (message : ByteArray) (offset : Nat) : UInt32 :=
  ((message.get! offset).toUInt32 <<< 24) ||| ((message.get! (offset + 1)).toUInt32 <<< 16)
    ||| ((message.get! (offset + 2)).toUInt32 <<< 8) ||| (message.get! (offset + 3)).toUInt32

/-- The chaining words after one round for each of the constants left. The words from `w0` on are
those that the coming sixteen rounds add; each round works out the word that comes after them. -/
def rounds : (left : List UInt32) →
    (w0 w1 w2 w3 w4 w5 w6 w7 w8 w9 w10 w11 w12 w13 w14 w15 : UInt32) →
    (a b c d e f g h : UInt32) → Chain
  | [], _, _, _, _, _, _, _, _, _, _, _, _, _, _, _, _, a, b, c, d, e, f, g, h =>
    ⟨a, b, c, d, e, f, g, h⟩
  | constant :: left, w0, w1, w2, w3, w4, w5, w6, w7, w8, w9, w10, w11, w12, w13, w14, w15,
      a, b, c, d, e, f, g, h =>
    let w16 := sigma1 w14 + w9 + sigma0 w1 + w0
    let choice := (e &&& f) ^^^ (~~~e &&& g)
    let majority := (a &&& b) ^^^ (a &&& c) ^^^ (b &&& c)
    let t := h + sum1 e + choice + constant + w0
    rounds left w1 w2 w3 w4 w5 w6 w7 w8 w9 w10 w11 w12 w13 w14 w15 w16
      (t + sum0 a + majority) a b c (d + t) e f g

/-- The chaining words after the block at an offset. -/
def compress (message : ByteArray) (s : Chain) (offset : Nat) : Chain :=
  let word (i : Nat) : UInt32 := wordAt message (offset + 4 * i)
  let t := rounds constants (word 0) (word 1) (word 2) (word 3) (word 4) (word 5) (word 6) (word 7)
    (word 8) (word 9) (word 10) (word 11) (word 12) (word 13) (word 14) (word 15)
    s.a s.b s.c s.d s.e s.f s.g s.h
  ⟨s.a + t.a, s.b + t.b, s.c + t.c, s.d + t.d, s.e + t.e, s.f + t.f, s.g + t.g, s.h + t.h⟩

/-- How many zero bytes stand between the closing bit and the length. -/
def paddingZeros (size : Nat) : Nat := (119 - size % 64) % 64

/-- The message, a closing one bit, zeros, and its length in bits in eight bytes. -/
def pad (message : ByteArray) : ByteArray :=
  let bits := 8 * message.size
  (message.push 0x80) ++ ⟨Array.replicate (paddingZeros message.size) 0⟩
    ++ (BigEndian.encode 8 bits).toBuffer

/-- The four bytes of a word, the highest first. -/
def wordBytes (w : UInt32) : Bytes :=
  [(w >>> 24).toUInt8, (w >>> 16).toUInt8, (w >>> 8).toUInt8, w.toUInt8]

/-- The digest of a message, thirty-two bytes. -/
def digest (message : ByteArray) : Bytes :=
  let padded := pad message
  let s := Nat.fold (padded.size / 64) (fun i _ s => compress padded s (64 * i)) initial
  [s.a, s.b, s.c, s.d, s.e, s.f, s.g, s.h].flatMap wordBytes

def hex (message : ByteArray) : String := Hex.ofBytes (digest message)

@[simp] theorem length_digest (message : ByteArray) : (digest message).length = 32 := rfl

end FlatImage.Sha256
