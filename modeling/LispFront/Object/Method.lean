import LispFront.Object.Arguments
import LispFront.Object.Registry
import LispFront.Syntax.Heap

namespace LispFront

/-!
# Method bodies

The body of a method is a tree of steps.  It can look at the heap, add to it, and make requests to
the object system, whose answers, errors included, decide how it goes on.  It cannot change the
registry, and it can change the heap in no other way than by new lists and new elements at the end
of a list.  What a user's methods do is thus as free as it can be, and still every effect of a
body is one of the steps below.
-/

/-- What a method body asks of the object system. -/
inductive Request where
  | send (generic : GenericId) (npos nkey : UInt64) (args : List Value)
  | call (callee : Value) (npos nkey : UInt64) (args : List Value)
deriving DecidableEq, Repr

/-- The steps of a method body. -/
inductive Body (α : Type) : Type where
  | done (a : α)
  | fail (e : Error)
  | never
  | look (next : Heap → Body α)
  | alloc (elements : List Syntax) (next : ListRef → Body α)
  | append (l : ListRef) (element : Syntax) (next : Body α)
  | request (r : Request) (next : Except Error Value → Body α)

namespace Body

/-- Goes on with `f` where the body is done. -/
def bind {α β : Type} (f : α → Body β) : Body α → Body β
  | done a => f a
  | fail e => fail e
  | never => never
  | look next => look fun h => (next h).bind f
  | alloc elements next => alloc elements fun l => (next l).bind f
  | append l element next => append l element (next.bind f)
  | request r next => request r fun result => (next result).bind f

instance : Monad Body where
  pure := done
  bind x f := x.bind f

/-- The value of a result, or its error. -/
def ofExcept {α : Type} : Except Error α → Body α
  | .ok a => done a
  | .error e => fail e

/-- What an operation on the heap answers. -/
def ofHeap {α : Type} (operation : Heap → Answer α) : Body α :=
  look fun h =>
    match operation h with
    | none => never
    | some result => ofExcept result

/-- Adds an element at the end of a list. -/
def appendTo (l : ListRef) (element : Syntax) : Body Unit := append l element (done ())

/-- Sends a generic function to a flat list of arguments. -/
def send (generic : GenericId) (npos nkey : UInt64) (args : List Value) : Body Value :=
  request (.send generic npos nkey args) ofExcept

/-- Calls a value with a flat list of arguments. -/
def call (callee : Value) (npos nkey : UInt64) (args : List Value) : Body Value :=
  request (.call callee npos nkey args) ofExcept

/-- The text that `print-object` gives for a value. -/
def print (r : Registry) (v : Value) : Body String := do
  let core ← ofExcept r.getCore
  let printed ← send core.generics.printObject 1 0 [v]
  ofExcept printed.asString

end Body

/-- A method: from the registry, the environment of its closure, the two counts and the flat list
of arguments to a body. -/
abbrev Method : Type := Registry → Value → UInt64 → UInt64 → List Value → Body Value

end LispFront
