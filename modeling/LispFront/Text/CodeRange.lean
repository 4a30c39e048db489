namespace LispFront
namespace Text

/-!
# Ranges of code points

A character class that has no short description is a list of ranges of code points.  The tables
of such classes stand in modules of their own; this one says how they are read.
-/

/-- The code points from `first` to `last`, both included. -/
structure CodeRange where
  first : Nat
  last : Nat
deriving DecidableEq, Repr

/-- Whether the code point of a character lies in a range. -/
def CodeRange.holds (r : CodeRange) (c : Char) : Bool :=
  r.first ≤ c.toNat && c.toNat ≤ r.last

/-- The ranges given by their two ends. -/
def ofPairs (pairs : List (Nat × Nat)) : List CodeRange :=
  pairs.map fun (first, last) => ⟨first, last⟩

/-- Whether a character lies in one of the ranges. -/
def isWithin (ranges : List CodeRange) (c : Char) : Bool :=
  ranges.any (·.holds c)

/-- A character is within the ranges exactly when one of them holds it. -/
theorem isWithin_iff (ranges : List CodeRange) (c : Char) :
    isWithin ranges c = true ↔ ∃ r ∈ ranges, r.first ≤ c.toNat ∧ c.toNat ≤ r.last := by
  simp [isWithin, CodeRange.holds]

end Text
end LispFront
