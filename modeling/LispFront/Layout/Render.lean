import LispFront.Layout.Document

namespace LispFront
namespace Layout

/-!
# Rendering

A group is flat when its content and what follows it, up to the next line outside of a flat group,
fit into the width; else its lines are line feeds.  Groups inside a flat group are flat.  The
rendering is a list of pieces, from which the plain and the coloured text are written.
-/

/-- Whether lines are line feeds or spaces. -/
inductive Mode where
  | broken
  | flat
deriving DecidableEq, Repr

/-- A part of a document that is still to be rendered, with its indentation. -/
structure Pending where
  indent : Nat
  body : Document
deriving DecidableEq, Repr

/-! ## Fitting -/

/-- How far a document takes a line. -/
inductive Extent where
  /-- The line is wider than the width. -/
  | tooWide
  /-- The line ends within the width. -/
  | ended
  /-- The line goes on at this column. -/
  | upTo (column : Nat)
deriving DecidableEq, Repr

/-- The extent of a text that begins at a column. -/
def textExtent (width column columns : Nat) : Extent :=
  if width < column + columns then .tooWide else .upTo (column + columns)

/-- The extent of a document that begins at a column. -/
def extent (width : Nat) (mode : Mode) : Document → (column : Nat) → Extent
  | .empty, column => .upTo column
  | .text s, column => textExtent width column (Text.columns s)
  | .line, column =>
    match mode with
    | .flat => textExtent width column 1
    | .broken => .ended
  | .append left right, column =>
    match extent width mode left column with
    | .upTo column => extent width mode right column
    | final => final
  | .nest _ body, column => extent width mode body column
  | .group body, column => extent width mode body column
  | .align body, column => extent width mode body column
  | .styled _ body, column => extent width mode body column

/-- Whether what is pending fits, from a column on. -/
def pendingFits (width : Nat) : List Pending → (column : Nat) → Bool
  | [], _ => true
  | p :: rest, column =>
    match extent width .broken p.body column with
    | .tooWide => false
    | .ended => true
    | .upTo column => pendingFits width rest column

/-- Whether a document fits when it is flat, with what follows it. -/
def fits (width : Nat) (body : Document) (rest : List Pending) (column : Nat) : Bool :=
  match extent width .flat body column with
  | .tooWide => false
  | .ended => true
  | .upTo column => pendingFits width rest column

/-! ## Pieces -/

/-- A piece of a rendering. -/
inductive Piece where
  | text (s : String)
  /-- A line feed and this many spaces. -/
  | newline (indent : Nat)
  | enter (style : Style)
  | leave
deriving DecidableEq, Repr

/-- Renders a document from a column on: the pieces, and the column after them.  A line feed is
followed by the indentation of what is pending next. -/
def renderFrom (width : Nat) : Document → (indent : Nat) → Mode → (rest : List Pending) →
    (column : Nat) → List Piece × Nat
  | .empty, _, _, _, column => ([], column)
  | .text s, _, _, _, column => ([.text s], column + Text.columns s)
  | .line, indent, mode, rest, column =>
    match mode with
    | .flat => ([.text " "], column + 1)
    | .broken =>
      let next := (rest.head?.map (·.indent)).getD indent
      ([.newline next], next)
  | .append left right, indent, mode, rest, column =>
    let (before, middle) := renderFrom width left indent mode (⟨indent, right⟩ :: rest) column
    let (after, final) := renderFrom width right indent mode rest middle
    (before ++ after, final)
  | .nest columns body, indent, mode, rest, column =>
    renderFrom width body (indent + columns) mode rest column
  | .group body, indent, mode, rest, column =>
    let mode := if mode = .broken ∧ fits width body rest column then .flat else mode
    renderFrom width body indent mode rest column
  | .align body, _, mode, rest, column => renderFrom width body column mode rest column
  | .styled style body, indent, mode, rest, column =>
    let (pieces, final) := renderFrom width body indent mode rest column
    (.enter style :: pieces ++ [.leave], final)

/-- The pieces of a document at a width. -/
def render (width : Nat) (d : Document) : List Piece := (renderFrom width d 0 .broken [] 0).1

/-! ## Plain and coloured text -/

/-- The digit of a colour in a terminal's colour sequence. -/
def Color.digit : Color → String
  | .green => "2"
  | .blue => "4"
  | .magenta => "5"
  | .cyan => "6"

/-- The sequence that ends all styles. -/
def resetSequence : String := "\x1b[0m"

/-- The sequences that begin a style. -/
def Style.sequence (style : Style) : String :=
  resetSequence ++ (if style.bold then "\x1b[1m" else "") ++ "\x1b[3" ++ style.color.digit ++ "m"

/-- A piece as plain text. -/
def Piece.plain : Piece → String
  | .text s => s
  | .newline indent => "\n" ++ String.ofList (List.replicate indent ' ')
  | .enter _ => ""
  | .leave => ""

/-- A piece as text with colour sequences. -/
def Piece.colored : Piece → String
  | .enter style => style.sequence
  | .leave => resetSequence
  | piece => piece.plain

/-- The text of pieces, with colour sequences or without. -/
def textOf (color : Bool) (pieces : List Piece) : String :=
  String.join (pieces.map fun piece => if color then piece.colored else piece.plain)

theorem textOf_append (color : Bool) (before after : List Piece) :
    textOf color (before ++ after) = textOf color before ++ textOf color after := by
  simp [textOf, String.join_append]

end Layout
end LispFront
