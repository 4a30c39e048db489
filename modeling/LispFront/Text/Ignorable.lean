import LispFront.Text.CodeRange

namespace LispFront
namespace Text

/-!
# Ignorable characters

The characters with the Unicode property `Default_Ignorable_Code_Point`: where a display has no
special support for one of them, it shows nothing at all in its place.  They are joiners, fillers
and variation selectors, and the code points kept free for more of their kind.
-/

/-- The ignorable characters, as rising ranges of code points. -/
def ignorableCharacters : List CodeRange :=
  ofPairs [
    (0xAD, 0xAD), (0x34F, 0x34F), (0x61C, 0x61C), (0x115F, 0x1160), (0x17B4, 0x17B5),
    (0x180B, 0x180F), (0x200B, 0x200F), (0x202A, 0x202E), (0x2060, 0x206F), (0x3164, 0x3164),
    (0xFE00, 0xFE0F), (0xFEFF, 0xFEFF), (0xFFA0, 0xFFA0), (0xFFF0, 0xFFF8), (0x1BCA0, 0x1BCA3),
    (0x1D173, 0x1D17A), (0xE0000, 0xE0FFF)]

/-- Whether a character is ignorable. -/
def isIgnorable (c : Char) : Bool :=
  isWithin ignorableCharacters c

end Text
end LispFront
