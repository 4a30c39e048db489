import LispFront.Decimal.Style

namespace LispFront

/-!
# Numbers

A number is a fixnum of 64 bits or a flonum, an IEEE 754 binary64 number.  A flonum is known by
its bits, so that signed zeros and the payload of a NaN are kept.
-/

/-- A binary64 number, by its bits: a sign, eleven bits of exponent and 52 of fraction. -/
structure Flonum where
  bits : UInt64
deriving DecidableEq, Repr, Inhabited

namespace Flonum

/-- Whether the sign bit is set. -/
def isNegative (x : Flonum) : Bool := x.bits >>> 63 != 0

/-- The exponent field. -/
def exponentField (x : Flonum) : Nat := (x.bits >>> 52 &&& 0x7FF).toNat

/-- The fraction field. -/
def fraction (x : Flonum) : Nat := (x.bits &&& 0xFFFFFFFFFFFFF).toNat

/-- Whether the bits stand for no number. -/
def isNaN (x : Flonum) : Bool := x.exponentField == 2047 && x.fraction != 0

/-- Whether the number is infinite. -/
def isInfinite (x : Flonum) : Bool := x.exponentField == 2047 && x.fraction == 0

/-- Whether the number is zero, of either sign. -/
def isZero (x : Flonum) : Bool := x.exponentField == 0 && x.fraction == 0

/-- The absolute value of a finite number as a binary fraction. -/
def magnitude (x : Flonum) : Decimal.Binary :=
  if x.exponentField = 0 then ⟨x.fraction, 0⟩
  else ⟨Nat.pow 2 52 + x.fraction, x.exponentField - 1⟩

/-- Equality of the numbers themselves: a NaN equals nothing, and the two zeros are equal. -/
def equals (x y : Flonum) : Bool :=
  !x.isNaN && !y.isNaN && (x.bits == y.bits || (x.isZero && y.isZero))

/-- Flonums are positional from `1e-4` up to but without `1e16`, and always show a point there. -/
def style : Decimal.Style where
  lowest := -4
  highest := 15
  wholeTail := ".0"
  exponentMark := "e"

/-- The text of a flonum: the fewest digits that read back to it. -/
def toText (x : Flonum) : String :=
  if x.isNaN then "NaN"
  else
    let sign := if x.isNegative then "-" else ""
    if x.isInfinite then sign ++ "inf"
    else if x.isZero then sign ++ "0" ++ style.wholeTail
    else sign ++ x.magnitude.shortest.toText style

end Flonum

/-- A number of the language. -/
inductive Number where
  | fixnum (n : Int64)
  | flonum (x : Flonum)
deriving DecidableEq, Repr

namespace Number

/-- The text of a number. -/
def toText : Number → String
  | fixnum n => toString n.toInt
  | flonum x => x.toText

/-- Equality of numbers; a fixnum never equals a flonum. -/
def equals : Number → Number → Bool
  | fixnum m, fixnum n => m == n
  | flonum x, flonum y => x.equals y
  | _, _ => false

end Number

end LispFront
