namespace LispFront
namespace CommandLine

/-!
# Natural numbers on a command line

A natural number is written in decimal digits, after a plus sign if one likes, and has to fit into
64 bits.
-/

/-- Why a text is not a natural number of 64 bits. -/
inductive NaturalFault where
  | empty
  | invalidDigit
  | tooLarge
deriving DecidableEq, Repr

/-- A fault of a number in words. -/
def NaturalFault.message : NaturalFault → String
  | empty => "cannot parse integer from empty string"
  | invalidDigit => "invalid digit found in string"
  | tooLarge => "number too large to fit in target type"

/-- The number that digits add to the value of the digits before them.  The first fault from the
left is reported. -/
def readDigits : (value : Nat) → List Char → Except NaturalFault Nat
  | value, [] => .ok value
  | value, c :: rest =>
    if !c.isDigit then .error .invalidDigit
    else
      let value := 10 * value + (c.toNat - '0'.toNat)
      if UInt64.size ≤ value then .error .tooLarge else readDigits value rest

/-- The natural number that a text stands for. -/
def readNatural (text : String) : Except NaturalFault Nat :=
  match text.toList with
  | [] => .error .empty
  | ['+'] => .error .invalidDigit
  | '+' :: digits => readDigits 0 digits
  | digits => readDigits 0 digits

end CommandLine
end LispFront
