import LispFront.Error
import LispFront.Syntax.Basic

namespace LispFront

/-!
# Values

Anything that can be passed around, dispatched on and called.  Classes, wrappers and generic
functions are known by their place in the registry.  A closure pairs a piece of code with an
environment, and the code is a name: which body a name stands for is said where bodies are run.
-/

/-- The place of a class in the registry. -/
structure ClassId where
  index : Nat
deriving DecidableEq, Repr

/-- The place of a wrapper in the registry. -/
structure WrapperId where
  index : Nat
deriving DecidableEq, Repr

/-- The place of a generic function in the registry. -/
structure GenericId where
  index : Nat
deriving DecidableEq, Repr

/-- The methods that every object system is equipped with. -/
inductive CoreMethod where
  | addElement
  | firstElement
  | secondElement
  | thirdElement
  | fourthElement
  | printSyntaxList
  | printSyntaxSymbol
  | printSyntaxString
  | printSyntaxNumber
  | printSymbol
  | printString
  | printNumber
  | printNil
  | printObject
deriving DecidableEq, Repr

/-- The code of a closure: a core method, or a method that a user supplies under a name. -/
inductive Code where
  | core (method : CoreMethod)
  | user (name : String)
deriving DecidableEq, Repr

/-- A value.  An object of a user's class is reached through the wrapper of the class. -/
inductive Value where
  | nil
  | symbol (s : Symbol)
  | string (text : String)
  | number (n : Number)
  | stx (s : Syntax)
  | closure (code : Code) (env : Value)
  | classRef (id : ClassId)
  | genericRef (id : GenericId)
  | object (wrapper : WrapperId) (payload : Value)
deriving DecidableEq, Repr

/-- A piece of code with its environment. -/
structure Closure where
  code : Code
  env : Value
deriving DecidableEq, Repr

namespace Value

/-- What kind of value it is, in words. -/
def kind : Value → String
  | nil => "nil"
  | symbol _ => "symbol"
  | string _ => "string"
  | number _ => "number"
  | stx s => s.kind
  | closure .. => "closure"
  | classRef _ => "class"
  | genericRef _ => "generic function"
  | object .. => "instance"

/-- The syntax object that a value is. -/
def asSyntax : Value → Except Error Syntax
  | stx s => .ok s
  | v => .error (.identity "syntax object" v.kind)

/-- The syntax list that a value is. -/
def asSyntaxList : Value → Except Error ListRef
  | stx (.list l) => .ok l
  | v => .error (.identity "syntax list" v.kind)

/-- The string that a value is. -/
def asString : Value → Except Error String
  | string text => .ok text
  | v => .error (.identity "string" v.kind)

/-- The symbol that a value is. -/
def asSymbol : Value → Except Error Symbol
  | symbol s => .ok s
  | v => .error (.identity "symbol" v.kind)

end Value

end LispFront
