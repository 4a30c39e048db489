import LispFront.Text.CodeRange
import LispFront.Text.Unassigned

namespace LispFront
namespace Text

/-!
# Printable characters

A character is printable when it leaves a mark of its own or is the space: no control, format or
private-use character, no separator but U+0020, and no unassigned code point.
-/

/-- The format characters (general category `Cf`), as rising ranges of code points. -/
def formatCharacters : List CodeRange :=
  ofPairs [
    (0xAD, 0xAD), (0x600, 0x605), (0x61C, 0x61C), (0x6DD, 0x6DD), (0x70F, 0x70F), (0x890, 0x891),
    (0x8E2, 0x8E2), (0x180E, 0x180E), (0x200B, 0x200F), (0x202A, 0x202E), (0x2060, 0x2064),
    (0x2066, 0x206F), (0xFEFF, 0xFEFF), (0xFFF9, 0xFFFB), (0x110BD, 0x110BD), (0x110CD, 0x110CD),
    (0x13430, 0x1343F), (0x1BCA0, 0x1BCA3), (0x1D173, 0x1D17A), (0xE0001, 0xE0001),
    (0xE0020, 0xE007F)]

/-- The separators but U+0020 (general categories `Zs`, `Zl` and `Zp`). -/
def wideSeparators : List CodeRange :=
  ofPairs [
    (0xA0, 0xA0), (0x1680, 0x1680), (0x2000, 0x200A), (0x2028, 0x2029), (0x202F, 0x202F),
    (0x205F, 0x205F), (0x3000, 0x3000)]

/-- The code points set aside for private use (general category `Co`). -/
def privateUse : List CodeRange :=
  ofPairs [
    (0xE000, 0xF8FF), (0xF0000, 0xFFFFD), (0x100000, 0x10FFFD)]

/-- Whether a character is a control (general category `Cc`). -/
def isControl (c : Char) : Bool :=
  c.toNat < 0x20 || (0x7F ≤ c.toNat && c.toNat ≤ 0x9F)

/-- Whether a character shows as itself in a text. -/
def isPrintable (c : Char) : Bool :=
  if c.toNat < 0x7F then 0x20 ≤ c.toNat
  else !(isControl c || isWithin formatCharacters c || isWithin wideSeparators c ||
    isWithin privateUse c || isUnassigned c)

end Text
end LispFront
