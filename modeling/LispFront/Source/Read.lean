import LispFront.Source.Builder
import LispFront.Source.Position

namespace LispFront

/-!
# Reading

Reads a source text into the list of its forms.  Atoms become symbols, numerals included, and only
string literals become anything else.  The lexemes before a fault are built before the fault is
reported.
-/

namespace Source

/-- Builds lexemes one after the other.  `unclosed` holds, for every open list, the source from its
parenthesis on, the innermost first. -/
def build (sys : ObjectSystem) (source : List Char) :
    List Lexeme → (unclosed : List (List Char)) → Builder → Exec (List (List Char) × Builder)
  | [], unclosed, b => return (unclosed, b)
  | ⟨.openList, start⟩ :: rest, unclosed, b => do
    build sys source rest (start :: unclosed) (← b.push sys)
  | ⟨.closeList, start⟩ :: rest, unclosed, b => do
    if b.depth = 0 then throw (Fault.toError source ⟨.closeWithoutOpen, start⟩)
    build sys source rest unclosed.tail (← Exec.ofExcept b.pop)
  | ⟨.string text, _⟩ :: rest, unclosed, b => do
    b.addString sys text
    build sys source rest unclosed b
  | ⟨.atom name, _⟩ :: rest, unclosed, b => do
    b.addSymbol sys name
    build sys source rest unclosed b

end Source

/-- Reads every form of a source text into one list. -/
def ObjectSystem.read (sys : ObjectSystem) (text : String) : Exec ListRef := do
  let b ← Builder.new sys
  let source := text.toList
  let (lexemes, fault) := Source.scan source
  let (unclosed, b) ← Source.build sys source lexemes [] b
  if let some fault := fault then throw (fault.toError source)
  if let start :: _ := unclosed then throw (Source.Fault.toError source ⟨.unclosedList, start⟩)
  Exec.trace (.readForms ((← get).heap.length b.current))
  Exec.ofExcept b.finish

end LispFront
