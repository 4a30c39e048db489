import LispFront.Number
import LispFront.Symbol
import LispFront.Text.Quoted

namespace LispFront

/-!
# Syntax objects

What a source text is read into.  A syntax object is a symbol, a string, a number or a list.
Lists are shared and grow while they are in use, so a `Syntax` holds the address of a list and a
heap holds its elements.  A `Datum` is the finite tree that a syntax object stands for at one
moment; its text is the written form of the object.
-/

/-- A symbol of a source text, with the expansion environment it came from. -/
structure SyntaxSymbol where
  symbol : Symbol
  context : Option HygieneContext
deriving DecidableEq, Repr

/-- The address of a list. -/
structure ListRef where
  address : Nat
deriving DecidableEq, Repr

/-- A syntax object, its lists by address. -/
inductive Syntax where
  | symbol (s : SyntaxSymbol)
  | string (text : String)
  | number (n : Number)
  | list (l : ListRef)
deriving DecidableEq, Repr

/-- A syntax object as a tree. -/
inductive Datum where
  | symbol (s : SyntaxSymbol)
  | string (text : String)
  | number (n : Number)
  | list (elements : List Datum)
deriving Repr

namespace Syntax

/-- A symbol without a hygiene context. -/
def ofSymbol (s : Symbol) : Syntax := symbol ⟨s, none⟩

/-- What kind of syntax object it is, in words. -/
def kind : Syntax → String
  | symbol _ => "syntax symbol"
  | string _ => "syntax string"
  | number _ => "syntax number"
  | list _ => "syntax list"

/-- Whether the object is a list. -/
def isList : Syntax → Bool
  | list _ => true
  | _ => false

end Syntax

namespace Datum

mutual

/-- The written form of a tree.  In a list every element is followed by a space. -/
def toText : Datum → String
  | symbol s => s.symbol.name
  | string text => Text.quote text
  | number n => n.toText
  | list elements => "(" ++ elementsText elements ++ ")"

/-- The written forms of the elements of a list, each followed by a space. -/
def elementsText : List Datum → String
  | [] => ""
  | d :: rest => d.toText ++ " " ++ elementsText rest

end

end Datum

end LispFront
