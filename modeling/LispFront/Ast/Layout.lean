import LispFront.Ast.Basic
import LispFront.Layout.Render
import LispFront.Text.Bytes

namespace LispFront
namespace Ast

/-!
# Writing syntax trees

A node is written as a form in parentheses: a head word and its parts.  A form that does not fit
has each part on a line of its own, one column to the right of its parenthesis.  A parameter list
is never broken itself, though the default values in it may be.
-/

open Layout

/-- The style of a head word. -/
def headStyle : Style := ⟨.green, false⟩

/-- The style of an identifier. -/
def identifierStyle : Style := ⟨.blue, true⟩

/-- The style of a parameter marker. -/
def markerStyle : Style := ⟨.magenta, false⟩

/-- The style of the name of a keyword argument. -/
def keywordStyle : Style := ⟨.cyan, false⟩

/-- A form with a head word and parts. -/
def form (head : String) (parts : List Document) : Document :=
  let words := Document.styled headStyle (.text head) :: parts
  .align (.parenthesized (.group (.nest 1 (.separated .line words))))

/-- An identifier. -/
def identifier (id : Identifier) : Document := .styled identifierStyle (.text id.symbol.name)

/-- The marker of a group of parameters. -/
def marker (name : String) : Document := .styled markerStyle (.text name)

/-- The parameters of a group after their marker; an empty group has none. -/
def markedGroup (name : String) (parameters : List Document) : List Document :=
  if parameters.isEmpty then [] else marker name :: parameters

/-- A keyword argument: its name with a colon, and its value on the same line. -/
def keywordArgument (key : Symbol) (value : Document) : Document :=
  .styled keywordStyle (.text (key.name ++ ":")) ++ .space ++ value

/-- A parameter with a default value. -/
def defaulted (id : Identifier) (value : Document) : Document :=
  .parenthesized (identifier id ++ .space ++ value)

/-- A parameter list. -/
def parameterList (groups : List (List Document)) : Document :=
  .group (.parenthesized (.separated .space groups.flatten))

/-- The head word of a reference. -/
def refHead : Namespace → String
  | .values => "ref"
  | .functions => "fref"

/-- The head word of a definition. -/
def defineHead : Namespace → String
  | .values => "def"
  | .functions => "fdef"

/-- The head word of an assignment. -/
def assignHead : Namespace → String
  | .values => "set"
  | .functions => "fset"

mutual

/-- The document of a syntax tree. -/
def document : Ast → Document
  | .ref id => form (refHead id.space) [identifier id]
  | .define id value => form (defineHead id.space) [identifier id, value.document]
  | .assign id value => form (assignHead id.space) [identifier id, value.document]
  | .cond test consequent alternative =>
    form "if" [test.document, consequent.document, alternative.document]
  | .seq expressions => form "seq" (documents expressions)
  | .app operator ⟨positional, keywords⟩ =>
    form "app" (operator.document :: documents positional ++ keywordDocuments keywords)
  | .lam ⟨required, optional, keyword, rest, allKeys⟩ body =>
    form "lambda" [
      parameterList [
        parameterDocuments required,
        markedGroup "&optional:" (parameterDocuments optional),
        markedGroup "&key:" (parameterDocuments keyword),
        markedGroup "&rest:" (parameterDocument? rest),
        markedGroup "&all-keys:" (parameterDocument? allKeys)],
      body.document]

/-- The documents of syntax trees. -/
def documents : List Ast → List Document
  | [] => []
  | a :: rest => a.document :: documents rest

/-- The documents of keyword arguments. -/
def keywordDocuments : List (Symbol × Ast) → List Document
  | [] => []
  | (key, value) :: rest => keywordArgument key value.document :: keywordDocuments rest

/-- The documents of parameters. -/
def parameterDocuments : List (Parameter Ast) → List Document
  | [] => []
  | ⟨id, none⟩ :: rest => identifier id :: parameterDocuments rest
  | ⟨id, some value⟩ :: rest => defaulted id value.document :: parameterDocuments rest

/-- The document of a parameter that may be absent. -/
def parameterDocument? : Option (Parameter Ast) → List Document
  | none => []
  | some ⟨id, none⟩ => [identifier id]
  | some ⟨id, some value⟩ => [defaulted id value.document]

end

/-- The text of a syntax tree at a width, with colours or without. -/
def toText (width : Nat) (color : Bool) (a : Ast) : String :=
  textOf color (render width a.document)

/-- The width at which a syntax tree is shown when no other is asked for. -/
def defaultWidth : Nat := 80

/-- The line that is handed on for a syntax tree. -/
def emit (width : Nat) (color : Bool) (a : Ast) : String := a.toText width color ++ "\n"

/-- Hands the line on to a receiver that takes no more than `capacity` bytes: the line, or what is
seen of it in the bytes that the receiver took before it refused. -/
def emitWithin (capacity width : Nat) (color : Bool) (a : Ast) : Except String String :=
  let written := a.emit width color
  if written.utf8ByteSize ≤ capacity then .ok written
  else .error (Text.firstBytes capacity written)

end Ast
end LispFront
