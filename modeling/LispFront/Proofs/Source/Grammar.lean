import LispFront.Source.Token
import LispFront.Syntax.Basic

/-!
# The grammar of source texts

How a forest is written, without a scanner and without a builder.  `Tokens` writes a forest as a
sequence of tokens, `Written` a token as characters, and `Spelled` a sequence of tokens as a source
with a gap before, between and after them.  A gap is made of separators and comments; it can be
empty except between two atoms.  `Spells` puts these together.
-/

namespace LispFront
namespace Source

/-! ## Gaps -/

/-- Separators and comments, every comment with the line feed that ends it. -/
inductive Gap : List Char → Prop
  | nil : Gap []
  | separator {c : Char} {gap : List Char} (hc : c ∈ [' ', '\t', '\r', '\n'])
      (hgap : Gap gap) : Gap (c :: gap)
  | comment {text gap : List Char} (htext : '\n' ∉ text) (hgap : Gap gap) :
      Gap (';' :: (text ++ '\n' :: gap))

/-- What may stand after all tokens: a gap, and perhaps a comment up to the end of the source. -/
inductive LastGap : List Char → Prop
  | gap {gap : List Char} (hgap : Gap gap) : LastGap gap
  | comment {gap text : List Char} (hgap : Gap gap) (htext : '\n' ∉ text) :
      LastGap (gap ++ ';' :: text)

/-! ## Tokens as characters -/

/-- The letters that may follow a backslash, with the characters that they stand for. -/
def escapes : List (Char × Char) := [('"', '"'), ('\\', '\\'), ('n', '\n'), ('t', '\t')]

/-- A text, and the characters between the quotes of a literal that stands for it. -/
inductive Literal : List Char → List Char → Prop
  | nil : Literal [] []
  | plain {c : Char} {text body : List Char} (hquote : c ≠ '"') (hslash : c ≠ '\\')
      (hrest : Literal text body) : Literal (c :: text) (c :: body)
  | escape {letter c : Char} {text body : List Char} (hletter : (letter, c) ∈ escapes)
      (hrest : Literal text body) : Literal (c :: text) ('\\' :: letter :: body)

/-- Whether a character can be part of an atom. -/
structure AtomChar (c : Char) : Prop where
  blank : Text.isBlank c = false
  mark : c ∉ ['(', ')', '"', ';']

/-- Whether characters are the name of an atom. -/
structure AtomName (name : List Char) : Prop where
  nonempty : name ≠ []
  chars : ∀ c ∈ name, AtomChar c

/-- A token and its characters. -/
inductive Written : Token → List Char → Prop
  | openList : Written .openList ['(']
  | closeList : Written .closeList [')']
  | string {text : String} {body : List Char} (hbody : Literal text.toList body) :
      Written (.string text) ('"' :: (body ++ ['"']))
  | atom {name : String} (hname : AtomName name.toList) : Written (.atom name) name.toList

/-- Whether a token is an atom. -/
def Token.isAtom : Token → Bool
  | atom _ => true
  | _ => false

/-- Tokens and a source that spells them.  The flag says whether an atom stands right before the
source, so that another one has to be kept apart from it. -/
inductive Spelled : (afterAtom : Bool) → List Token → List Char → Prop
  | nil {afterAtom : Bool} {gap : List Char} (hgap : LastGap gap) : Spelled afterAtom [] gap
  | cons {afterAtom : Bool} {token : Token} {tokens : List Token}
      {gap written rest : List Char} (hgap : Gap gap)
      (happart : afterAtom = true → token.isAtom = true → gap ≠ [])
      (hwritten : Written token written) (hrest : Spelled token.isAtom tokens rest) :
      Spelled afterAtom (token :: tokens) (gap ++ written ++ rest)

/-! ## Forests as tokens -/

/-- A forest of symbols, strings and lists, and its tokens in order.  Symbols have no hygiene
context. -/
inductive Tokens : List Datum → List Token → Prop
  | nil : Tokens [] []
  | symbol {name : String} {ds : List Datum} {tokens : List Token} (hrest : Tokens ds tokens) :
      Tokens (.symbol ⟨⟨name⟩, none⟩ :: ds) (.atom name :: tokens)
  | string {text : String} {ds : List Datum} {tokens : List Token} (hrest : Tokens ds tokens) :
      Tokens (.string text :: ds) (.string text :: tokens)
  | list {elements ds : List Datum} {inner tokens : List Token} (hinner : Tokens elements inner)
      (hrest : Tokens ds tokens) :
      Tokens (.list elements :: ds) (.openList :: inner ++ .closeList :: tokens)

/-- The source is a spelling of the forest. -/
def Spells (ds : List Datum) (source : List Char) : Prop :=
  ∃ tokens, Tokens ds tokens ∧ Spelled false tokens source

end Source
end LispFront
