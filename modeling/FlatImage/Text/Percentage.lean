/-!
# Percentages with two decimals

A share is computed in binary floating point with 53 significant bits and only then written with
two decimals, so its text is that of the rounded quotient and not of the exact one. Both roundings
are exact here: every intermediate value is a natural number over a power of two.
-/

namespace FlatImage.Percentage

/-- The quotient rounded to the nearest natural number, a tie to the even one. -/
def roundDiv (n d : Nat) : Nat :=
  let q := n / d
  let twice := 2 * (n % d)
  if twice < d then q else if d < twice then q + 1 else q + q % 2

/-- A non-negative binary fraction, `units` over `1 <<< scale`. -/
structure Fraction where
  units : Nat
  scale : Nat

namespace Fraction

/-- The quotient rounded to 53 significant bits, a tie to the even significand. The quotient is
first scaled so far that more than 53 of its bits are whole. -/
def ofQuotient (n d : Nat) : Fraction :=
  let scale := Nat.log2 d + 64
  let shifted := n <<< scale
  let unit := 1 <<< (Nat.log2 (shifted / d) - 52)
  ⟨roundDiv shifted (d * unit) * unit, scale⟩

/-- A whole number, rounded where it has more than 53 significant bits. -/
def ofNat (n : Nat) : Fraction := ofQuotient n 1

def scaleBy (x : Fraction) (n : Nat) : Fraction := ofQuotient (n * x.units) (1 <<< x.scale)

def div (x y : Fraction) : Fraction :=
  ofQuotient (x.units <<< y.scale) (y.units <<< x.scale)

/-- The exact value rounded to hundredths, a tie to the even one. -/
def hundredths (x : Fraction) : Nat := roundDiv (100 * x.units) (1 <<< x.scale)

end Fraction

/-- The share of `part` in `whole`, in hundredths of a percent. -/
def hundredths (part whole : Nat) : Nat :=
  (((Fraction.ofNat part).scaleBy 100).div (Fraction.ofNat whole)).hundredths

/-- A number of hundredths with a point and two decimals. -/
def text (h : Nat) : String :=
  toString (h / 100) ++ "." ++ toString (h / 10 % 10) ++ toString (h % 10)

/-- The share of `part` in `whole` as a percentage with two decimals. -/
def share (part whole : Nat) : String := text (hundredths part whole)

/-- The rounded quotient is within half a unit of the exact one. -/
theorem roundDiv_near (n d : Nat) (pos : 0 < d) :
    2 * n ≤ (2 * roundDiv n d + 1) * d ∧ 2 * roundDiv n d * d ≤ 2 * n + d := by
  have split := Nat.div_add_mod n d
  have small := Nat.mod_lt n pos
  have even : n / d % 2 ≤ 1 := by omega
  unfold roundDiv
  generalize n / d = q at *
  generalize n % d = r at *
  subst split
  have e : ∀ x : Nat, (2 * (q + x) + 1) * d = 2 * (d * q) + 2 * (x * d) + d := by
    intro x; simp only [Nat.add_mul, Nat.mul_add, Nat.mul_comm d q, Nat.mul_assoc]; omega
  have f : ∀ x : Nat, 2 * (q + x) * d = 2 * (d * q) + 2 * (x * d) := by
    intro x; simp only [Nat.mul_add, Nat.add_mul, Nat.mul_comm d q, Nat.mul_assoc]
  have e0 := e 0
  have f0 := f 0
  have e1 := e 1
  have f1 := f 1
  simp only [Nat.add_zero, Nat.zero_mul, Nat.one_mul] at e0 f0 e1 f1
  dsimp only
  split
  · omega
  · split
    · omega
    · rcases (by omega : q % 2 = 0 ∨ q % 2 = 1) with h | h <;> rw [h]
      · simp only [Nat.add_zero]; omega
      · omega

end FlatImage.Percentage
