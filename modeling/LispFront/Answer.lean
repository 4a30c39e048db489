import LispFront.Error

namespace LispFront

/-!
# Answers

An operation answers with a value or with an error, or it has no answer at all: a list that
contains itself has no finite text, and a method that sends itself without end never returns.
The three outcomes are kept apart.
-/

/-- A value, an error, or no answer. -/
abbrev Answer (α : Type) : Type := ExceptT Error Option α

namespace Answer

/-- The outcome of an operation that never returns. -/
def never {α : Type} : Answer α := (none : Option (Except Error α))

/-- The value or error of a computation that always returns. -/
def ofExcept {α : Type} (result : Except Error α) : Answer α := some result

/-- A value, if there is one. -/
def ofOption {α : Type} (value : Option α) : Answer α := value.map Except.ok

end Answer

end LispFront
