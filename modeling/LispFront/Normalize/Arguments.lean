import LispFront.Ast.Basic
import LispFront.Object.Run

namespace LispFront
namespace Normalize

/-!
# Dissecting arguments

Splits the elements of a call into positional and keyword arguments.  A keyword marker takes the
element after it as its value, whatever that element is.
-/

/-- The keyword that an element marks. -/
def keywordOf? : Syntax → Option Symbol
  | .symbol s => if s.symbol.isKeywordMarker then some s.symbol.sansColon else none
  | _ => none

/-- Adds the remaining elements of a call to the arguments before them. -/
def dissectFrom (normalize : Syntax → Exec Ast) :
    Arguments Ast → List Syntax → Exec (Arguments Ast)
  | args, [] => return args
  | args, element :: rest =>
    match keywordOf? element with
    | some key =>
      match rest with
      | [] => throw (.missingKeywordValue key)
      | value :: rest' => do
        let value ← normalize value
        dissectFrom normalize (args.setKeyword key value) rest'
    | none => do
      let value ← normalize element
      dissectFrom normalize (args.addPositional value) rest

/-- The arguments that the elements of a call stand for. -/
def dissectArguments (normalize : Syntax → Exec Ast) (elements : List Syntax) :
    Exec (Arguments Ast) :=
  dissectFrom normalize .empty elements

end Normalize
end LispFront
