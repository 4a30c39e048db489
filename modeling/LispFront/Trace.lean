import LispFront.Symbol

namespace LispFront

/-!
# Trace

The events that a run records in its log, in the order in which they happen.
-/

/-- How much detail an event is. -/
inductive Level where
  | debug
  | trace
deriving DecidableEq, Repr

/-- The name of a level. -/
def Level.name : Level → String
  | debug => "DEBUG"
  | trace => "TRACE"

/-- What a run records. -/
inductive Event where
  /-- The core classes are in the registry. -/
  | declaredClasses
  /-- The core generic functions are in the registry. -/
  | declaredGenerics
  /-- The core generic functions have their methods. -/
  | registeredMethods
  /-- A source text was read into this many forms. -/
  | readForms (count : Nat)
  /-- A normalizer knows this many special forms. -/
  | installedSpecialForms (count : Nat)
  /-- This many forms are about to be normalized. -/
  | normalizingForms (count : Nat)
  /-- A send selected the method at this index of the generic function. -/
  | selected (generic : Symbol) (index : Nat)
  /-- A list is a special form. -/
  | specialForm (operator : Symbol)
  /-- A list is an ordinary application. -/
  | application (operator : Symbol)
deriving DecidableEq, Repr

namespace Event

/-- How much detail the event is. -/
def level : Event → Level
  | selected .. | specialForm _ | application _ => .trace
  | _ => .debug

/-- The part of the program that an event speaks of. -/
def topic : Event → String
  | selected .. => "dispatch"
  | specialForm _ | application _ => "normalize"
  | _ => "ell"

/-- The event in words. -/
def message : Event → String
  | declaredClasses => "bootstrap: declared core classes"
  | declaredGenerics => "bootstrap: declared core generics"
  | registeredMethods => "bootstrap: registered built-in methods"
  | readForms count => "read " ++ toString count ++ " top-level forms"
  | installedSpecialForms count =>
    "normalizer: installed " ++ toString count ++ " special forms"
  | normalizingForms count => "normalizing " ++ toString count ++ " top-level forms"
  | selected generic index => generic.name ++ " selected method #" ++ toString index
  | specialForm operator => "special form " ++ operator.name
  | application operator => "application of " ++ operator.name

/-- The event as a line of the log. -/
def toText (e : Event) : String :=
  e.level.name ++ " " ++ e.topic ++ ": " ++ e.message

end Event

end LispFront
