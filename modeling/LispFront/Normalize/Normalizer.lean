import LispFront.Normalize.Arguments
import LispFront.Normalize.Parameters
import LispFront.Normalize.SpecialForm

namespace LispFront

/-!
# Normalization

Turns syntax objects into syntax trees.  A symbol refers to a variable; a list is a special form or
the application of a function, by its head.  The elements of a list are reached by sending the
generic functions `first` to `fourth`, and the length of a special form is checked before any of
its parts is looked at.
-/

/-- A normalizer: an object system with its core generic functions. -/
structure Normalizer where
  sys : ObjectSystem
  generics : CoreGenerics

namespace Normalizer

open Normalize

/-- A normalizer for an object system that has its core. -/
def new (sys : ObjectSystem) : Exec Normalizer := do
  let core ← Exec.ofExcept sys.registry.getCore
  Exec.trace (.installedSpecialForms SpecialForm.all.length)
  return ⟨sys, core.generics⟩

/-! ## Access to lists -/

/-- The element of a list that a generic function answers. -/
def element (n : Normalizer) (generic : GenericId) (l : ListRef) : Exec Syntax := do
  let v ← n.sys.sendRaw generic 1 0 [.stx (.list l)]
  Exec.ofExcept v.asSyntax

/-- The first element of a list. -/
def first (n : Normalizer) (l : ListRef) : Exec Syntax := n.element n.generics.first l

/-- The second element of a list. -/
def second (n : Normalizer) (l : ListRef) : Exec Syntax := n.element n.generics.second l

/-- The third element of a list. -/
def third (n : Normalizer) (l : ListRef) : Exec Syntax := n.element n.generics.third l

/-- The fourth element of a list. -/
def fourth (n : Normalizer) (l : ListRef) : Exec Syntax := n.element n.generics.fourth l

/-- Checks the length of a list. -/
def checkLength (l : ListRef) (expected : Arity) : Exec Unit :=
  Exec.ofHeap fun h => h.checkLength l expected

/-- The symbol that a syntax object is. -/
def asSymbol (s : Syntax) : Exec Symbol := Exec.ofHeap fun h => h.asSymbol s

/-- The elements of a list from an index on. -/
def tail (l : ListRef) (start : Nat) : Exec (List Syntax) :=
  Exec.ofHeap fun h => pure (h.tail l start)

/-! ## Forms -/

/-- The parameter that an element of a parameter list stands for: a name, or a list of a name and
a default value. -/
def parameter (n : Normalizer) (normalize : Syntax → Exec Ast) :
    Syntax → Exec (Parameter Ast)
  | .symbol s => return ⟨⟨s.symbol, .values⟩, none⟩
  | .list l => do
    checkLength l (.exactly 2)
    let name ← asSymbol (← n.first l)
    let value ← normalize (← n.second l)
    return ⟨⟨name, .values⟩, some value⟩
  | s => do
    let found ← Exec.ofHeap fun h => h.describe s
    throw (.identity "parameter" found)

/-- A name and the value that it gets. -/
def binding (n : Normalizer) (normalize : Syntax → Exec Ast) (l : ListRef) :
    Exec (Symbol × Ast) := do
  checkLength l (.exactly 3)
  let name ← asSymbol (← n.second l)
  let value ← normalize (← n.third l)
  return (name, value)

/-- A special form.  Both kinds of assignment are to variables. -/
def special (n : Normalizer) (normalize : Syntax → Exec Ast) (l : ListRef) :
    SpecialForm → Exec Ast
  | .functionReference => do
    checkLength l (.exactly 2)
    return .ref ⟨← asSymbol (← n.second l), .functions⟩
  | .defineVariable => do
    let (name, value) ← n.binding normalize l
    return .define ⟨name, .values⟩ value
  | .defineFunction => do
    let (name, value) ← n.binding normalize l
    return .define ⟨name, .functions⟩ value
  | .assignVariable => do
    let (name, value) ← n.binding normalize l
    return .assign ⟨name, .values⟩ value
  | .assignFunction => do
    let (name, value) ← n.binding normalize l
    return .assign ⟨name, .values⟩ value
  | .conditional => do
    checkLength l (.exactly 4)
    let test ← normalize (← n.second l)
    let consequent ← normalize (← n.third l)
    let alternative ← normalize (← n.fourth l)
    return .cond test consequent alternative
  | .sequence => do
    checkLength l (.atLeast 1)
    return .seq (← (← tail l 1).mapM normalize)
  | .call => do
    checkLength l (.atLeast 2)
    let operator ← normalize (← n.second l)
    return .app operator (← dissectArguments normalize (← tail l 2))
  | .abstraction => do
    checkLength l (.exactly 3)
    let parameters ← n.second l
    let parameters ← Exec.ofHeap fun h => h.asList parameters
    let parameters ← dissectParameters (n.parameter normalize) (← tail parameters 0)
    let body ← normalize (← n.third l)
    return .lam parameters body

/-- The application of the function at the head of a list. -/
def application (n : Normalizer) (normalize : Syntax → Exec Ast) (l : ListRef) : Exec Ast := do
  checkLength l (.atLeast 1)
  let operator ← asSymbol (← n.first l)
  Exec.trace (.application operator)
  return .app (.ref ⟨operator, .functions⟩) (← dissectArguments normalize (← tail l 1))

/-- A list: a special form or an application, by the symbol at its head. -/
def normalizeList (n : Normalizer) (normalize : Syntax → Exec Ast) (l : ListRef) : Exec Ast := do
  let operator ← asSymbol (← n.first l)
  match SpecialForm.ofSymbol? operator with
  | some form =>
    Exec.trace (.specialForm operator)
    n.special normalize l form
  | none => n.application normalize l

/-- Normalizes a syntax object whose lists are nested at most `depth` deep. -/
def normalizeWithin (n : Normalizer) : (depth : Nat) → Syntax → Exec Ast
  | _, .symbol s => return .ref ⟨s.symbol, .values⟩
  | 0, .list _ => Exec.never
  | depth + 1, .list l => n.normalizeList (n.normalizeWithin depth) l
  | _, s => do
    let found ← Exec.ofHeap fun h => h.describe s
    throw (.identity "syntax symbol or list" found)

/-- Normalizes a syntax object.  Lists can be nested no deeper than there are lists, unless one
contains itself. -/
def normalize (n : Normalizer) (s : Syntax) : Exec Ast := do
  n.normalizeWithin (← get).heap.size s

/-! ## Programs -/

/-- Normalizes every form of a program, up to the first that fails. -/
def normalizeProgram (n : Normalizer) (root : ListRef) : Exec (List Ast) := do
  let forms ← tail root 0
  Exec.trace (.normalizingForms forms.length)
  forms.mapM n.normalize

/-- Normalizes every form of a program, whether the forms before it fail or not. -/
def normalizeEach (n : Normalizer) (root : ListRef) : Exec (List (Except Error Ast)) := do
  (← tail root 0).mapM fun form => (n.normalize form).attempt

/-- The arguments that syntax objects stand for. -/
def arguments (n : Normalizer) (elements : List Syntax) : Exec (Arguments Ast) :=
  dissectArguments n.normalize elements

/-- The parameters that syntax objects stand for. -/
def parameters (n : Normalizer) (elements : List Syntax) : Exec (Parameters Ast) :=
  dissectParameters (n.parameter n.normalize) elements

end Normalizer

end LispFront
