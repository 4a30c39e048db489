import LispFront.Decimal.Shortest

namespace LispFront
namespace Decimal

/-!
# Writing a decimal

A decimal is written positionally when its first digit stands for a power of ten in a given span,
and with an exponent outside of it.
-/

/-- How decimals are written. -/
structure Style where
  /-- The least power of ten whose decimals are written positionally. -/
  lowest : Int
  /-- The greatest power of ten whose decimals are written positionally. -/
  highest : Int
  /-- The digits after the point of a whole number that is written positionally. -/
  wholeTail : String
  /-- What stands between the digits and the exponent. -/
  exponentMark : String
deriving DecidableEq, Repr

/-- The decimal in positional form, at least one digit standing before the point. -/
def positional (style : Style) (d : Scaled) : String :=
  let digits := d.digits
  if d.leading < 0 then
    "0." ++ String.ofList (List.replicate (-d.leading - 1).toNat '0' ++ digits)
  else
    let whole := d.leading.toNat + 1
    if digits.length ≤ whole then
      String.ofList (digits ++ List.replicate (whole - digits.length) '0') ++ style.wholeTail
    else String.ofList (digits.take whole) ++ "." ++ String.ofList (digits.drop whole)

/-- The decimal with an exponent, one digit standing before the point. -/
def exponential (style : Style) (d : Scaled) : String :=
  let digits := d.digits
  let point := if digits.length ≤ 1 then "" else "."
  String.ofList (digits.take 1) ++ point ++ String.ofList (digits.drop 1) ++ style.exponentMark ++
    toString d.leading

/-- The text of a decimal that is not zero. -/
def Scaled.toText (style : Style) (d : Scaled) : String :=
  if style.lowest ≤ d.leading ∧ d.leading ≤ style.highest then positional style d
  else exponential style d

end Decimal
end LispFront
