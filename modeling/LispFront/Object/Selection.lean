import LispFront.Object.Arguments
import LispFront.Object.Subclass

namespace LispFront
namespace Registry

/-!
# Selecting a method

A send runs the first method, in the order of registration, whose classes accept the classes of
the positional arguments.  Keyword arguments take no part in the selection.
-/

/-- The core class of a value that is no object of a user's class. -/
def coreClassOf (classes : CoreClasses) : Value → ClassId
  | .nil => classes.nil
  | .symbol _ => classes.symbol
  | .string _ => classes.string
  | .number _ => classes.number
  | .stx (.symbol _) => classes.syntaxSymbol
  | .stx (.string _) => classes.syntaxString
  | .stx (.number _) => classes.syntaxNumber
  | .stx (.list _) => classes.syntaxList
  | .closure .. => classes.closure
  | .classRef _ => classes.classObject
  | .genericRef _ => classes.generic
  | .object .. => classes.object

/-- The wrapper of a value.  No value has one before the core classes are there, not even an
object of a user's class. -/
def wrapperOf (r : Registry) (v : Value) : Except Error WrapperId := do
  let core ← r.getCore
  match v with
  | .object wrapper _ => return wrapper
  | v => return (r.getClass (coreClassOf core.classes v)).wrapper

/-- The class of a value. -/
def classOf (r : Registry) (v : Value) : Except Error ClassId := do
  return r.getWrapper (← r.wrapperOf v)

/-- An object of a class. -/
def makeObject (r : Registry) (id : ClassId) (payload : Value) : Value :=
  .object (r.getClass id).wrapper payload

/-- Whether a class accepts the objects behind a wrapper: those of its own and of its
subclasses. -/
def accepts (r : Registry) (id : ClassId) (wrapper : WrapperId) : Bool :=
  (r.getClass id).wrapper == wrapper || r.isSubclass (r.getWrapper wrapper) id

/-- Whether a method applies to positional arguments with these wrappers.  A method that asks for
fewer of them leaves the others free. -/
def applies (r : Registry) (wrappers : List WrapperId) (entry : MethodEntry) : Bool :=
  entry.specializers.length ≤ wrappers.length &&
    (entry.specializers.zip wrappers).all fun (id, wrapper) => r.accepts id wrapper

/-- What a send is going to run: the closure, with the name of the generic function and the index
of the method. -/
structure Selection where
  generic : Symbol
  index : Nat
  closure : Closure
deriving DecidableEq, Repr

/-- The name of the class behind a wrapper. -/
def wrapperName (r : Registry) (wrapper : WrapperId) : Symbol :=
  (r.getClass (r.getWrapper wrapper)).name

/-- Selects the method that a send runs.  Counts that pass the check never ask for more positional
arguments than there are (`le_length_of_checkLayout`). -/
def select (r : Registry) (generic : GenericId) (npos nkey : UInt64) (args : List Value) :
    Except Error Selection := do
  checkLayout npos nkey args
  let wrappers ← (args.take npos.toNat).mapM r.wrapperOf
  let g := r.getGeneric generic
  match g.methods.zipIdx.find? fun (entry, _) => r.applies wrappers entry with
  | some (entry, index) => return ⟨g.name, index, entry.closure⟩
  | none => throw (.dispatch g.name (wrappers.map r.wrapperName))

/-- The first method dispatched on the receiver only that applies to a value. -/
def findMethod (r : Registry) (receiver : Value) (generic : GenericId) :
    Except Error (Option Closure) := do
  let wrapper ← r.wrapperOf receiver
  let entry := (r.getGeneric generic).methods.find? fun entry =>
    match entry.specializers with
    | [id] => r.accepts id wrapper
    | _ => false
  return entry.map (·.closure)

end Registry
end LispFront
