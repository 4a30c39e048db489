import LispFront.Answer
import LispFront.Syntax.Basic

namespace LispFront

/-!
# The heap of syntax lists

Lists are cells of a heap: a cell is never removed, and elements are only added at its end.  Every
reference to a cell sees what is added.  The operations that look at a list are functions of the
heap; those that need the text of a list have no answer when the list contains itself.
-/

/-- The elements of all lists, by address. -/
structure Heap where
  cells : Array (List Syntax)
deriving Repr

namespace Heap

/-- The heap without any list. -/
def empty : Heap := ⟨#[]⟩

/-- How many lists there are. -/
def size (h : Heap) : Nat := h.cells.size

/-- A new list with these elements. -/
def alloc (h : Heap) (elements : List Syntax) : ListRef × Heap :=
  (⟨h.size⟩, ⟨h.cells.push elements⟩)

/-- The elements of a list, in order. -/
def elements (h : Heap) (l : ListRef) : List Syntax :=
  (h.cells[l.address]?).getD []

/-- The number of elements of a list. -/
def length (h : Heap) (l : ListRef) : Nat := (h.elements l).length

/-- The elements from the given index on. -/
def tail (h : Heap) (l : ListRef) (start : Nat) : List Syntax := (h.elements l).drop start

/-- Adds an element at the end of a list. -/
def append (h : Heap) (l : ListRef) (element : Syntax) : Heap :=
  ⟨h.cells.modify l.address (· ++ [element])⟩

/-! ## What is added is seen, and nothing else changes -/

@[simp] theorem size_alloc (h : Heap) (elements : List Syntax) :
    (h.alloc elements).2.size = h.size + 1 := by
  simp [alloc, size]

@[simp] theorem size_append (h : Heap) (l : ListRef) (element : Syntax) :
    (h.append l element).size = h.size := by
  simp [append, size]

@[simp] theorem elements_alloc_self (h : Heap) (elements : List Syntax) :
    (h.alloc elements).2.elements (h.alloc elements).1 = elements := by
  simp [alloc, size, Heap.elements]

/-- A new list changes no other. -/
theorem elements_alloc_of_lt {h : Heap} {l : ListRef} (hl : l.address < h.size)
    (elements : List Syntax) : (h.alloc elements).2.elements l = h.elements l := by
  have hne : l.address ≠ h.cells.size := Nat.ne_of_lt hl
  simp [alloc, Heap.elements, Array.getElem?_push, hne]

theorem elements_append_self {h : Heap} {l : ListRef} (hl : l.address < h.size)
    (element : Syntax) : (h.append l element).elements l = h.elements l ++ [element] := by
  have hcell : l.address < h.cells.size := hl
  simp [append, Heap.elements, Array.getElem_modify, hcell]

/-- An addition changes no other list. -/
theorem elements_append_of_ne {l m : ListRef} (hne : m ≠ l) (h : Heap) (element : Syntax) :
    (h.append l element).elements m = h.elements m := by
  have haddress : l.address ≠ m.address := by
    intro heq
    apply hne
    cases l
    cases m
    simp_all
  simp [append, Heap.elements, Array.getElem?_modify, haddress]

/-! ## Trees -/

/-- The tree of a syntax object whose lists are nested at most `depth` deep. -/
def treeWithin (h : Heap) : Nat → Syntax → Option Datum
  | _, .symbol s => some (.symbol s)
  | _, .string text => some (.string text)
  | _, .number n => some (.number n)
  | 0, .list _ => none
  | depth + 1, .list l => ((h.elements l).mapM (h.treeWithin depth)).map .list

/-- The tree of a syntax object.  On a path without repetition there are at most as many lists as
the heap has, so that only an object that contains itself has none. -/
def tree? (h : Heap) (s : Syntax) : Option Datum := h.treeWithin h.size s

/-- The written form of a syntax object. -/
def toText (h : Heap) (s : Syntax) : Answer String :=
  Answer.ofOption ((h.tree? s).map Datum.toText)

/-- The kind and the written form of a syntax object. -/
def describe (h : Heap) (s : Syntax) : Answer String := do
  return s.kind ++ " " ++ (← h.toText s)

/-! ## Checked access -/

/-- Fails with the length of a list that ought to have been another. -/
def shapeError {α : Type} (h : Heap) (l : ListRef) (expected : Arity) : Answer α := do
  throw (.shape (← h.toText (.list l)) expected (h.length l))

/-- Checks the length of a list. -/
def checkLength (h : Heap) (l : ListRef) (expected : Arity) : Answer Unit :=
  if expected.admits (h.length l) then pure () else h.shapeError l expected

/-- The element at an index, counted from zero. -/
def nth (h : Heap) (l : ListRef) (index : Nat) : Answer Syntax :=
  match (h.elements l)[index]? with
  | some element => pure element
  | none => h.shapeError l (.atLeast (index + 1))

/-- The symbol that a syntax object is. -/
def asSymbol (h : Heap) : Syntax → Answer Symbol
  | .symbol s => pure s.symbol
  | s => do throw (.identity "syntax symbol" (← h.describe s))

/-- The list that a syntax object is. -/
def asList (h : Heap) : Syntax → Answer ListRef
  | .list l => pure l
  | s => do throw (.identity "syntax list" (← h.describe s))

end Heap

end LispFront
