import LispFront.Text.GraphemeExtend
import LispFront.Text.Ignorable
import LispFront.Text.Printable

namespace LispFront
namespace Text

/-!
# Quoted text

A text in double quotes, on one line and in characters that show.  Six characters have a short
escape of two characters; any other character that leaves no mark, or that would join with the
character before it, is written by its code point.
-/

/-- The letter after the backslash, for the characters that have a short escape. -/
def shortEscape? (c : Char) : Option Char :=
  if c == '\x00' then some '0'
  else if c == '\t' then some 't'
  else if c == '\r' then some 'r'
  else if c == '\n' then some 'n'
  else if c == '"' then some '"'
  else if c == '\\' then some '\\'
  else none

/-- A character by its code point, in lower-case hexadecimal without leading zeros. -/
def codePointEscape (c : Char) : List Char :=
  ['\\', 'u', '{'] ++ Nat.toDigits 16 c.toNat ++ ['}']

/-- Whether a character is a sound mark of halfwidth katakana.  These two extend a grapheme, but
have a shape and a place of their own, as letters do. -/
def isHalfwidthSoundMark (c : Char) : Bool :=
  c == '\uFF9E' || c == '\uFF9F'

/-- Whether a character can stand between the quotes as itself. -/
def standsInQuotes (c : Char) : Bool :=
  isPrintable c && !isIgnorable c && (!isGraphemeExtender c || isHalfwidthSoundMark c)

/-- The characters that stand for `c` between the quotes. -/
def quoteChar (c : Char) : List Char :=
  match shortEscape? c with
  | some letter => ['\\', letter]
  | none => if standsInQuotes c then [c] else codePointEscape c

/-- A text in double quotes, with its escapes. -/
def quote (text : String) : String :=
  String.ofList (['"'] ++ text.toList.flatMap quoteChar ++ ['"'])

end Text
end LispFront
