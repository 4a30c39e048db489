import LispFront.Object.Method
import LispFront.Object.Selection

namespace LispFront
namespace CoreMethod

/-!
# The core methods

Building and taking apart syntax lists, and printing the values of every core class.  A method
first checks that it got as many positional arguments as it takes.
-/

/-- Adds the second argument at the end of the first, and returns the first. -/
def addBody (receiver element : Value) : Body Value := do
  let element ← Body.ofExcept element.asSyntax
  let list ← Body.ofExcept receiver.asSyntaxList
  Body.appendTo list element
  return receiver

/-- The element of a list at an index. -/
def elementBody (index : Nat) (receiver : Value) : Body Value := do
  let list ← Body.ofExcept receiver.asSyntaxList
  return .stx (← Body.ofHeap fun h => h.nth list index)

/-- The texts of the elements in parentheses, each followed by a space. -/
def printElements (r : Registry) : List Syntax → Body String
  | [] => return ")"
  | s :: rest => do
    let text ← Body.print r (.stx s)
    return text ++ " " ++ (← printElements r rest)

/-- Prints a syntax list by printing its elements. -/
def printListBody (r : Registry) (receiver : Value) : Body Value := do
  let list ← Body.ofExcept receiver.asSyntaxList
  let elements ← Body.ofHeap fun h => pure (h.elements list)
  return .string ("(" ++ (← printElements r elements))

/-- Prints any syntax object as it is written. -/
def printWrittenBody (receiver : Value) : Body Value := do
  let s ← Body.ofExcept receiver.asSyntax
  return .string (← Body.ofHeap fun h => h.toText s)

/-- Prints a symbol of a source text by its name. -/
def printSyntaxSymbolBody : Value → Body Value
  | .stx (.symbol s) => return .string s.symbol.name
  | v => .fail (.identity "syntax symbol" v.kind)

/-- Prints a number. -/
def printNumberBody : Value → Body Value
  | .number n => return .string n.toText
  | v => .fail (.identity "number" v.kind)

/-- Prints a value by the name of its class. -/
def printObjectBody (r : Registry) (receiver : Value) : Body Value := do
  let id ← Body.ofExcept (r.classOf receiver)
  return .string ("#<" ++ (r.getClass id).name.name ++ ">")

/-- What a method that takes one positional argument does with it. -/
def bodyOfOne (r : Registry) (receiver : Value) : CoreMethod → Body Value
  | addElement => .never
  | firstElement => elementBody 0 receiver
  | secondElement => elementBody 1 receiver
  | thirdElement => elementBody 2 receiver
  | fourthElement => elementBody 3 receiver
  | printSyntaxList => printListBody r receiver
  | printSyntaxSymbol => printSyntaxSymbolBody receiver
  | printSyntaxString => printWrittenBody receiver
  | printSyntaxNumber => printWrittenBody receiver
  | printSymbol => do return .string (← Body.ofExcept receiver.asSymbol).name
  | printString => return receiver
  | printNumber => printNumberBody receiver
  | printNil => return .string "nil"
  | printObject => printObjectBody r receiver

/-- How many positional arguments a method takes. -/
def formal : CoreMethod → UInt64
  | addElement => 2
  | _ => 1

/-- The method that a name stands for. -/
def method (m : CoreMethod) : Method := fun r _ npos _ args => do
  Body.ofExcept (checkCount m.formal npos)
  match m, args with
  | addElement, receiver :: element :: _ => addBody receiver element
  | m, receiver :: _ => m.bodyOfOne r receiver
  | _, [] => .never

/-- Any one value is printed by the name of its class. -/
theorem method_printObject {r : Registry} {v : Value} {id : ClassId} (h : r.classOf v = .ok id)
    (env : Value) (nkey : UInt64) (others : List Value) :
    printObject.method r env 1 nkey (v :: others) =
      .done (.string ("#<" ++ (r.getClass id).name.name ++ ">")) := by
  show printObjectBody r v = _
  unfold printObjectBody
  rw [h]
  rfl

end CoreMethod
end LispFront
