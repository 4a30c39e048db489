import LispFront.Text.GraphemeExtend
import LispFront.Text.Ignorable
import LispFront.Text.Wide

namespace LispFront
namespace Text

/-!
# Columns of a text

How many columns of a terminal a text takes.  A text in ASCII takes one for every character,
controls included.  In any other text a character takes two, one or no column, and an emoji joins
with a skin tone after it to two columns.
-/

/-- The medial and final letters of Hangul, which stand in the block of the letter before them. -/
def innerHangulLetters : List CodeRange :=
  ofPairs [(0x1160, 0x11FF), (0xD7B0, 0xD7C6), (0xD7CB, 0xD7FB)]

/-- Whether a character takes no column: the grapheme extenders, the inner letters of Hangul and
the ignorable characters do not, except the filler U+115F, which opens a block of Hangul. -/
def isZeroWidth (c : Char) : Bool :=
  isGraphemeExtender c || isWithin innerHangulLetters c || (isIgnorable c && c != '\u115F')

/-- The columns of a character that stands alone. -/
def charColumns (c : Char) : Nat :=
  if c.toNat < 0x80 then 1
  else if isZeroWidth c then 0
  else if isWide c then 2
  else 1

/-- The columns of the characters of a text that is not in ASCII.  An emoji with a skin tone takes
two columns, also where the emoji alone takes one. -/
def displayColumns : List Char → Nat
  | [] => 0
  | [c] => charColumns c
  | c :: tone :: rest =>
    if takesSkinTone c && isSkinTone tone then 2 + displayColumns rest
    else charColumns c + displayColumns (tone :: rest)

/-- The columns that a text takes. -/
def columns (text : String) : Nat :=
  if text.toList.all (·.toNat < 0x80) then text.length else displayColumns text.toList

end Text
end LispFront
