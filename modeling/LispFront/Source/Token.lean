import LispFront.Error
import LispFront.Text.Blank

namespace LispFront
namespace Source

/-!
# Tokens

A source text is cut into parentheses, string literals and atoms.  Between two tokens there may be
separators and comments, which run from a semicolon to the end of the line.  A lexeme is a token
with the rest of the source from its first character on, and so with its place; a fault has its
place in the same way.
-/

/-- A token. -/
inductive Token where
  | openList
  | closeList
  | string (text : String)
  | atom (name : String)
deriving DecidableEq, Repr

/-- A token, and the source from its first character on. -/
structure Lexeme where
  token : Token
  start : List Char
deriving DecidableEq, Repr

/-- What is wrong with a source, and the source from there on. -/
structure Fault where
  kind : ReadFault
  start : List Char
deriving DecidableEq, Repr

/-! ## Between tokens -/

/-- The source after its leading separators and comments; the flag says whether the source begins
inside a comment. -/
def skip : (inComment : Bool) → List Char → List Char
  | _, [] => []
  | true, c :: rest => skip (c != '\n') rest
  | false, c :: rest =>
    if Text.isSeparator c then skip false rest
    else if c == ';' then skip true rest
    else c :: rest

/-- Skipping never makes a source longer. -/
theorem length_skip_le (inComment : Bool) (source : List Char) :
    (skip inComment source).length ≤ source.length := by
  induction source generalizing inComment with
  | nil => cases inComment <;> simp [skip]
  | cons c rest ih =>
    cases inComment with
    | true => exact Nat.le_succ_of_le (ih _)
    | false =>
      simp only [skip]
      split
      · exact Nat.le_succ_of_le (ih _)
      · split
        · exact Nat.le_succ_of_le (ih _)
        · exact Nat.le_refl _

/-! ## String literals -/

/-- The character that a letter stands for after a backslash. -/
def unescape? (c : Char) : Option Char :=
  if c == '"' then some '"'
  else if c == '\\' then some '\\'
  else if c == 'n' then some '\n'
  else if c == 't' then some '\t'
  else none

/-- The text of a string literal and the source after it.  `start` is the source from the opening
quote on, and the recursion is on the source after the quote. -/
def scanString (start : List Char) : List Char → Except Fault (List Char × List Char)
  | [] => .error ⟨.unterminatedString, start⟩
  | c :: rest =>
    if c = '"' then .ok ([], rest)
    else if c = '\\' then
      match rest with
      | [] => .error ⟨.unterminatedString, start⟩
      | letter :: rest' =>
        match unescape? letter with
        | some resolved => (scanString start rest').map (Prod.map (resolved :: ·) id)
        | none => .error ⟨.unknownEscape, c :: letter :: rest'⟩
    else (scanString start rest).map (Prod.map (c :: ·) id)

/-! ## One token -/

/-- Whether an atom ends before this character. -/
def isDelimiter (c : Char) : Bool :=
  Text.isBlank c || c == '(' || c == ')' || c == '"' || c == ';'

/-- The first token of a source that begins with `c`, and the source after it. -/
def scanToken (c : Char) (rest : List Char) : Except Fault (Token × List Char) :=
  if c = '(' then .ok (.openList, rest)
  else if c = ')' then .ok (.closeList, rest)
  else if c = '"' then (scanString (c :: rest) rest).map (Prod.map (.string ∘ String.ofList) id)
  else if isDelimiter c then .error ⟨.unexpectedInput, c :: rest⟩
  else
    .ok (.atom (String.ofList (c :: rest.takeWhile (!isDelimiter ·))),
      rest.dropWhile (!isDelimiter ·))

private theorem length_of_map {α β γ ε : Type} {f : α → β} {x : Except ε (α × List γ)} {n : Nat}
    {b : β} {after : List γ} (h : x.map (Prod.map f id) = .ok (b, after))
    (hx : ∀ a after, x = .ok (a, after) → after.length ≤ n) : after.length ≤ n := by
  cases x with
  | error e => simp [Except.map] at h
  | ok p =>
    simp only [Except.map, Except.ok.injEq] at h
    have := hx p.1 p.2 rfl
    simp_all [Prod.map]

/-- What follows a string literal is no longer than what follows its opening quote. -/
theorem length_of_scanString {start source text after : List Char}
    (h : scanString start source = .ok (text, after)) : after.length ≤ source.length := by
  fun_induction scanString start source generalizing text after with
  | case1 => simp at h
  | case2 => simp_all
  | case3 => simp at h
  | case4 _ letter rest resolved _ ih =>
    have := length_of_map h fun _ _ => ih
    simp only [List.length_cons]
    omega
  | case5 => simp at h
  | case6 c rest _ _ ih => exact Nat.le_succ_of_le (length_of_map h fun _ _ => ih)

/-- A token takes at least one character. -/
theorem length_of_scanToken {c : Char} {rest after : List Char} {token : Token}
    (h : scanToken c rest = .ok (token, after)) : after.length ≤ rest.length := by
  unfold scanToken at h
  split at h
  · simp_all
  split at h
  · simp_all
  split at h
  · exact length_of_map h fun _ _ => length_of_scanString
  split at h
  · simp at h
  · simp only [Except.ok.injEq, Prod.mk.injEq] at h
    rw [← h.2]
    exact (List.dropWhile_sublist _).length_le

/-! ## All tokens -/

/-- The lexemes of a source up to its first fault, and that fault. -/
def scan (source : List Char) : List Lexeme × Option Fault :=
  match _hs : skip false source with
  | [] => ([], none)
  | c :: rest =>
    match _ht : scanToken c rest with
    | .error fault => ([], some fault)
    | .ok (token, after) =>
      let (lexemes, fault) := scan after
      (⟨token, c :: rest⟩ :: lexemes, fault)
termination_by source.length
decreasing_by
  have hSkip := length_skip_le false source
  have hToken := length_of_scanToken _ht
  rw [_hs] at hSkip
  simp only [List.length_cons] at hSkip
  omega

end Source
end LispFront
