import LispFront.Symbol

namespace LispFront

/-!
# Special forms

The nine names that give a list a meaning of its own when they stand at its head.  Every other
list is an application of a function.
-/

/-- The special forms. -/
inductive SpecialForm where
  | functionReference
  | defineVariable
  | defineFunction
  | assignVariable
  | assignFunction
  | conditional
  | sequence
  | call
  | abstraction
deriving DecidableEq, Repr

namespace SpecialForm

/-- All special forms. -/
def all : List SpecialForm :=
  [functionReference, defineVariable, defineFunction, assignVariable, assignFunction, conditional,
    sequence, call, abstraction]

/-- The name at the head of a special form. -/
def name : SpecialForm → String
  | functionReference => "fref"
  | defineVariable => "def"
  | defineFunction => "fdef"
  | assignVariable => "set"
  | assignFunction => "fset"
  | conditional => "if"
  | sequence => "progn"
  | call => "funcall"
  | abstraction => "lambda"

/-- The special form of a name. -/
def ofSymbol? (s : Symbol) : Option SpecialForm := all.find? fun form => form.name == s.name

/-- Every special form is found by its name. -/
theorem ofSymbol?_name (form : SpecialForm) : ofSymbol? ⟨form.name⟩ = some form := by
  cases form <;> decide

end SpecialForm

end LispFront
