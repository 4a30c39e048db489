import LispFront.Symbol

namespace LispFront

/-!
# Errors

Every way in which reading, normalizing, sending or calling can fail, by its cause.  The wording
of all of them stands in `Error.message`.
-/

/-- How many elements a syntax list has to have. -/
inductive Arity where
  | exactly (n : Nat)
  | atLeast (n : Nat)
deriving DecidableEq, Repr

namespace Arity

/-- Whether a list of this length meets the requirement. -/
def admits : Arity → Nat → Bool
  | exactly n, length => length == n
  | atLeast n, length => n ≤ length

/-- The requirement in words. -/
def toText : Arity → String
  | exactly n => "exactly " ++ toString n
  | atLeast n => "at least " ++ toString n

end Arity

/-- A place in a text: a line and a column, both counted from one. -/
structure Position where
  line : UInt32
  column : UInt32
deriving DecidableEq, Repr

/-- What is wrong at a place of a source text. -/
inductive ReadFault where
  | closeWithoutOpen
  | unclosedList
  | unterminatedString
  | unknownEscape
  | unexpectedInput
deriving DecidableEq, Repr

/-- A fault of a source text in words. -/
def ReadFault.message : ReadFault → String
  | closeWithoutOpen => "close parenthesis without matching open"
  | unclosedList => "unclosed list at end of input"
  | unterminatedString => "unterminated string"
  | unknownEscape => "unknown string escape"
  | unexpectedInput => "unexpected input"

/-- The causes of failure. -/
inductive Error where
  /-- A syntax list, here by its text, has the wrong number of elements. -/
  | shape (form : String) (expected : Arity) (found : Nat)
  /-- Something of one kind was found where another kind was required. -/
  | identity (expected found : String)
  /-- No method of the generic function applies to arguments of these classes. -/
  | dispatch (generic : Symbol) (classes : List Symbol)
  /-- Something that is no closure was called. -/
  | notCallable (kind : String)
  /-- The number of arguments differs from the number that was announced or is required. -/
  | wrongArgumentCount (expected found : Nat)
  /-- A keyword marker was the last argument. -/
  | missingKeywordValue (key : Symbol)
  | multipleRest
  | multipleAllKeys
  /-- The source text is malformed at a place. -/
  | read (position : Position) (fault : ReadFault)
  /-- The object system has no core classes yet. -/
  | notBootstrapped
  /-- The object system has its core classes already. -/
  | alreadyBootstrapped
  /-- The length that two counts announce does not fit 64 bits.  Nobody goes on after this: it stops
  the whole program. -/
  | overflow
deriving DecidableEq, Repr

namespace Error

/-- The error in words. -/
def message : Error → String
  | shape form expected found =>
    "list length assertion failed: expected " ++ expected.toText ++ " elements, found " ++
      toString found ++ " in " ++ form
  | identity expected found => "expected " ++ expected ++ ", found " ++ found
  | dispatch generic classes =>
    "message not understood: " ++ generic.name ++ " (" ++
      " ".intercalate (classes.map (·.name)) ++ ")"
  | notCallable kind => "not a closure: " ++ kind
  | wrongArgumentCount expected found =>
    "wrong number of arguments: expected " ++ toString expected ++ ", got " ++ toString found
  | missingKeywordValue key => "missing value for keyword argument " ++ key.name
  | multipleRest => "more than one rest parameter"
  | multipleAllKeys => "more than one all-keys parameter"
  | read position fault =>
    toString position.line.toNat ++ ":" ++ toString position.column.toNat ++ ": " ++ fault.message
  | notBootstrapped => "runtime: runtime is not bootstrapped"
  | alreadyBootstrapped => "runtime: runtime is already bootstrapped"
  | overflow => "arithmetic overflow"

end Error

end LispFront
