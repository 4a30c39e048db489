namespace LispFront

/-!
# Symbols

A symbol is known by its name alone.  A name that ends in a colon marks a keyword argument, and
the keyword is the name without that colon; a lone colon is an ordinary symbol.
-/

/-- A symbol; two symbols are the same exactly when their names are equal. -/
structure Symbol where
  name : String
deriving DecidableEq, Repr, Inhabited

namespace Symbol

/-- Whether the symbol marks a keyword argument, as `key:` does. -/
def isKeywordMarker (s : Symbol) : Bool :=
  1 < s.name.length && s.name.toList.getLast? == some ':'

/-- The symbol without the colon at its end; a symbol that has none stays as it is. -/
def sansColon (s : Symbol) : Symbol :=
  if s.name.toList.getLast? == some ':' then ⟨String.ofList s.name.toList.dropLast⟩ else s

end Symbol

/-- A token for the expansion environment that a symbol in source code came from.  Only its
identity matters. -/
structure HygieneContext where
  token : Nat
deriving DecidableEq, Repr, Inhabited

end LispFront
