import LispFront.Object.Run

namespace LispFront

/-!
# Building syntax

A builder puts syntax objects together from atoms, strings and the boundaries of lists.  It keeps
the list that holds all forms and the lists that are open, the innermost first.  Every element is
added by sending the generic function `add`, to a list that its parent holds already.
-/

/-- A tree under construction. -/
structure Builder where
  add : GenericId
  root : ListRef
  opened : List ListRef
deriving DecidableEq, Repr

namespace Builder

/-- A builder without forms. -/
def new (sys : ObjectSystem) : Exec Builder := do
  let core ← Exec.ofExcept sys.registry.getCore
  return ⟨core.generics.add, ← Exec.alloc [], []⟩

/-- How many lists are open. -/
def depth (b : Builder) : Nat := b.opened.length

/-- The list that the next element goes to. -/
def current (b : Builder) : ListRef := b.opened.head?.getD b.root

/-- Adds an element to the current list. -/
def addElement (sys : ObjectSystem) (b : Builder) (element : Syntax) : Exec Unit := do
  let _ ← sys.sendRaw b.add 2 0 [.stx (.list b.current), .stx element]

/-- Adds a symbol to the current list. -/
def addSymbol (sys : ObjectSystem) (b : Builder) (name : String) : Exec Unit :=
  b.addElement sys (.ofSymbol ⟨name⟩)

/-- Adds a string to the current list. -/
def addString (sys : ObjectSystem) (b : Builder) (text : String) : Exec Unit :=
  b.addElement sys (.string text)

/-- Opens a new list inside the current one. -/
def push (sys : ObjectSystem) (b : Builder) : Exec Builder := do
  let l ← Exec.alloc []
  b.addElement sys (.list l)
  return { b with opened := l :: b.opened }

/-- A fault that belongs to no place of a source. -/
def fault (kind : ReadFault) : Error := .read ⟨0, 0⟩ kind

/-- Closes the innermost open list. -/
def pop (b : Builder) : Except Error Builder :=
  match b.opened with
  | _ :: rest => .ok { b with opened := rest }
  | [] => .error (fault .closeWithoutOpen)

/-- The list of all forms, once every list is closed. -/
def finish (b : Builder) : Except Error ListRef :=
  if b.opened.isEmpty then .ok b.root else .error (fault .unclosedList)

end Builder

end LispFront
