import LispFront.Layout.Render

/-!
# What a layout may be

`LaidOut` says of a text what is promised for every layout of a document: its texts stand there
unchanged and in order, and every line has become one space or a line feed with spaces after it.
Which of the two, and how many spaces, is left open.  The plain rendering of a document is laid out,
at every width (`laidOut_render`).
-/

namespace LispFront
namespace Layout

/-- A document and what a layout may write for it. -/
inductive LaidOut : Document → List Char → Prop
  | empty : LaidOut .empty []
  | text (s : String) : LaidOut (.text s) s.toList
  | flat : LaidOut .line [' ']
  | broken (indent : Nat) : LaidOut .line ('\n' :: List.replicate indent ' ')
  | append {left right : Document} {before after : List Char} (hleft : LaidOut left before)
      (hright : LaidOut right after) : LaidOut (.append left right) (before ++ after)
  | nest {columns : Nat} {body : Document} {written : List Char} (hbody : LaidOut body written) :
      LaidOut (.nest columns body) written
  | group {body : Document} {written : List Char} (hbody : LaidOut body written) :
      LaidOut (.group body) written
  | align {body : Document} {written : List Char} (hbody : LaidOut body written) :
      LaidOut (.align body) written
  | styled {style : Style} {body : Document} {written : List Char} (hbody : LaidOut body written) :
      LaidOut (.styled style body) written

/-! ## Layouts of composed documents -/

namespace LaidOut

variable {left right body : Document} {written : List Char}

theorem eq_toList {s : String} (h : LaidOut (.text s) written) : written = s.toList := by
  cases h
  rfl

theorem of_styled {style : Style} (h : LaidOut (.styled style body) written) :
    LaidOut body written := by
  cases h with
  | styled hbody => exact hbody

theorem exists_of_append (h : LaidOut (left ++ right) written) :
    ∃ before after, written = before ++ after ∧ LaidOut left before ∧ LaidOut right after := by
  cases h with
  | append hleft hright => exact ⟨_, _, rfl, hleft, hright⟩

theorem exists_of_parenthesized (h : LaidOut (.parenthesized body) written) :
    ∃ inner, written = '(' :: (inner ++ [')']) ∧ LaidOut body inner := by
  obtain ⟨before, close, rfl, hbefore, hclose⟩ := exists_of_append h
  obtain ⟨first, inner, rfl, hopen, hbody⟩ := exists_of_append hbefore
  obtain rfl := hopen.eq_toList
  obtain rfl := hclose.eq_toList
  exact ⟨inner, rfl, hbody⟩

end LaidOut

/-! ## Renderings are layouts -/

theorem toList_textOf_append {color : Bool} (before after : List Piece) :
    (textOf color (before ++ after)).toList =
      (textOf color before).toList ++ (textOf color after).toList := by
  rw [textOf_append, String.toList_append]

theorem toList_textOf_singleton (piece : Piece) :
    (textOf false [piece]).toList = piece.plain.toList := by
  simp [textOf, String.join]

theorem toList_newline (indent : Nat) :
    (Piece.newline indent).plain.toList = '\n' :: List.replicate indent ' ' := by
  simp [Piece.plain, String.toList_append]

/-- Styles leave no trace in a plain text. -/
theorem toList_textOf_styled (style : Style) (pieces : List Piece) :
    (textOf false (.enter style :: pieces ++ [.leave])).toList = (textOf false pieces).toList := by
  rw [toList_textOf_append, ← List.singleton_append, toList_textOf_append, toList_textOf_singleton,
    toList_textOf_singleton]
  simp [Piece.plain]

/-- Wherever a document is rendered, and whatever is rendered after it, it is laid out. -/
theorem laidOut_renderFrom (width : Nat) (d : Document) (indent : Nat) (mode : Mode)
    (rest : List Pending) (column : Nat) :
    LaidOut d (textOf false (renderFrom width d indent mode rest column).1).toList := by
  induction d generalizing indent mode rest column with
  | empty => exact .empty
  | text s =>
      rw [renderFrom, toList_textOf_singleton]
      exact .text s
  | line =>
      cases mode with
      | flat =>
          rw [renderFrom, toList_textOf_singleton]
          exact .flat
      | broken =>
          rw [renderFrom, toList_textOf_singleton, toList_newline]
          exact .broken _
  | append left right ihLeft ihRight =>
      rw [renderFrom, toList_textOf_append]
      exact .append (ihLeft indent mode _ column) (ihRight indent mode rest _)
  | nest columns body ih => exact .nest (ih (indent + columns) mode rest column)
  | group body ih => exact .group (ih indent _ rest column)
  | align body ih => exact .align (ih column mode rest column)
  | styled style body ih =>
      rw [renderFrom, toList_textOf_styled]
      exact .styled (ih indent mode rest column)

/-- The plain text of a rendered document is a layout of it, at every width. -/
theorem laidOut_render (width : Nat) (d : Document) :
    LaidOut d (textOf false (render width d)).toList :=
  laidOut_renderFrom width d 0 .broken [] 0

end Layout
end LispFront
