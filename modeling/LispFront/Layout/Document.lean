import LispFront.Text.Columns

namespace LispFront
namespace Layout

/-!
# Documents

A document is a text with a choice of lines.  A line is one space where its group is flat, and a
line feed with the indentation of what follows where its group is broken.  A style colours a part
of a document and takes no columns.
-/

/-- The colours of a terminal that are in use. -/
inductive Color where
  | green
  | blue
  | magenta
  | cyan
deriving DecidableEq, Repr

/-- How a part of a document looks. -/
structure Style where
  color : Color
  bold : Bool
deriving DecidableEq, Repr

/-- A text with a choice of lines. -/
inductive Document where
  | empty
  | text (s : String)
  | line
  | append (left right : Document)
  | nest (columns : Nat) (body : Document)
  | group (body : Document)
  | align (body : Document)
  | styled (style : Style) (body : Document)
deriving DecidableEq, Repr

namespace Document

instance : Append Document := ⟨append⟩

/-- A space at which a document is never broken. -/
def space : Document := text " "

/-- Documents one after the other, with a separator between each two. -/
def separated (separator : Document) : List Document → Document
  | [] => empty
  | [d] => d
  | d :: rest => d ++ separator ++ separated separator rest

/-- A document in parentheses. -/
def parenthesized (body : Document) : Document := text "(" ++ body ++ text ")"

end Document

end Layout
end LispFront
