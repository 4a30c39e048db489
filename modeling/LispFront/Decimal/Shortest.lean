namespace LispFront
namespace Decimal

/-!
# Shortest decimals

The decimal with the fewest digits that reads back to a given binary fraction.  All arithmetic is
on natural numbers: a binary64 number is a multiple of `2 ^ -1074`, so that with its rounding
interval it is a multiple of `2 ^ -1076`, and `10 ^ 350` times any of them but zero is at least
`10 ^ 26`.
-/

/-- The positive number `mantissa * 2 ^ shift * 2 ^ -1074`. -/
structure Binary where
  mantissa : Nat
  shift : Nat
deriving DecidableEq, Repr

/-- The number `coefficient * 10 ^ exponent`. -/
structure Scaled where
  coefficient : Nat
  exponent : Int
deriving DecidableEq, Repr

namespace Binary

/-- The number in units of `2 ^ -1076`. -/
def units (b : Binary) : Nat := 4 * b.mantissa * Nat.pow 2 b.shift

/-- The lower end of the reals that round to the number.  Below a power of two the grid of
binary numbers is twice as fine, unless it is the finest there is. -/
def lowerEnd (b : Binary) : Nat :=
  (4 * b.mantissa - if b.mantissa = Nat.pow 2 52 ∧ 0 < b.shift then 1 else 2) *
    Nat.pow 2 b.shift

/-- The upper end of the reals that round to the number. -/
def upperEnd (b : Binary) : Nat := (4 * b.mantissa + 2) * Nat.pow 2 b.shift

/-- A power of ten by which every number but zero exceeds ten to the power of seventeen. -/
def scale : Nat := Nat.pow 10 350

/-- Whether a real rounds to the number, the real being `point / scale` in the units of `units`.
The ends themselves round to the number with the even mantissa. -/
def holds (b : Binary) (point : Nat) : Bool :=
  if b.mantissa % 2 = 0 then b.lowerEnd * scale ≤ point && point ≤ b.upperEnd * scale
  else b.lowerEnd * scale < point && point < b.upperEnd * scale

/-- How many decimal digits the whole part of `scale` times the number has. -/
def wholeDigits (b : Binary) : Nat :=
  (Nat.toDigits 10 (b.units * scale / Nat.pow 2 1076)).length

/-- Of the two decimals of `n` digits next to the number, the one that rounds to it; of two such,
the nearer, and the greater if both are equally near. -/
def decimalOf? (b : Binary) (n : Nat) : Option Scaled :=
  let places := b.wholeDigits - n
  let step := Nat.pow 2 1076 * Nat.pow 10 places
  let value := b.units * scale
  let below := value / step
  let exponent : Int := (places : Int) - 350
  let chosen :=
    if b.holds (below * step) then
      if b.holds ((below + 1) * step) && step ≤ 2 * (value - below * step) then some (below + 1)
      else some below
    else if b.holds ((below + 1) * step) then some (below + 1)
    else none
  chosen.map (⟨·, exponent⟩)

/-- The decimal with the fewest digits that rounds to the number.  Seventeen digits always do. -/
def shortest (b : Binary) : Scaled :=
  ((List.range 17).findSome? fun n => b.decimalOf? (n + 1)).getD ⟨0, 0⟩

end Binary

namespace Scaled

/-- The digits of the coefficient without the zeros at its end. -/
def digits (d : Scaled) : List Char :=
  ((Nat.toDigits 10 d.coefficient).reverse.dropWhile (· == '0')).reverse

/-- The power of ten of the first digit. -/
def leading (d : Scaled) : Int :=
  d.exponent + (Nat.toDigits 10 d.coefficient).length - 1

end Scaled

end Decimal
end LispFront
