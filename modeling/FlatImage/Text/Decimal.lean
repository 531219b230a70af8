/-!
# Reading decimal numbers

A number is a non-empty run of ASCII digits with an optional plus sign in front, and a minus sign
where negative numbers are allowed. Zeros in front mean nothing, and nothing else may stand before,
between or after the digits.
-/

namespace FlatImage.Decimal

def digit? (c : Char) : Option Nat :=
  if '0' ≤ c ∧ c ≤ '9' then some (c.toNat - '0'.toNat) else none

/-- The number whose digits follow those of `high`. -/
def digitsAfter (high : Nat) : List Char → Option Nat
  | [] => some high
  | c :: rest =>
    match digit? c with
    | some d => digitsAfter (10 * high + d) rest
    | none => none

def digits? : List Char → Option Nat
  | [] => none
  | cs => digitsAfter 0 cs

/-- The number that a text stands for. -/
def unsigned? : List Char → Option Nat
  | '+' :: rest => digits? rest
  | cs => digits? cs

/-- The number that a text stands for, which may be negative. -/
def signed? : List Char → Option Int
  | '-' :: rest => (digits? rest).map fun n => -Int.ofNat n
  | cs => (unsigned? cs).map Int.ofNat

/-- The number that a text stands for, when it is at most `most`. -/
def upTo? (most : Nat) (cs : List Char) : Option Nat :=
  match unsigned? cs with
  | some n => if n ≤ most then some n else none
  | none => none

example : unsigned? "007".toList = some 7 := by decide
example : unsigned? "+5".toList = some 5 := by decide
example : unsigned? "+".toList = none ∧ unsigned? "1_0".toList = none := by decide
example : signed? "-0".toList = some 0 := by decide

end FlatImage.Decimal
