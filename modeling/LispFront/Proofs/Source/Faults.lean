import LispFront.Proofs.Source.Places
import Mathlib.Data.List.Induction

/-!
# Faults of source texts

What is wrong with a source that spells no forest, and where, without a scanner and without a
builder.  Up to a place between tokens some number of lists is open (`OpenAt`).  `FaultAt` tells the
five faults apart by what stands before their place and what stands after it.

* Every source spells a forest or has a fault (`spells_or_faultAt`).
* A fault is not mended by anything that follows (`FaultAt.extend`), unless it is a list or a
  literal that has no end; then it can be (`FaultAt.exists_mended`).
* A source that spells a forest, and a line feed, may stand before all this (`FaultAt.after_line`).
-/

namespace LispFront
namespace Source

/-! ## Open lists -/

/-- Tokens that leave `depth` lists open: a forest, an opening parenthesis, another forest, and so
on inwards. -/
inductive Opening : (depth : Nat) → List Token → Prop
  | zero {ds : List Datum} {tokens : List Token} (htokens : Tokens ds tokens) : Opening 0 tokens
  | succ {depth : Nat} {ds : List Datum} {before inner : List Token}
      (hbefore : Opening depth before) (hinner : Tokens ds inner) :
      Opening (depth + 1) (before ++ .openList :: inner)

/-- Up to this place, which is between tokens, `depth` lists have been opened and not closed. -/
def OpenAt (depth : Nat) (before : List Char) : Prop :=
  ∃ tokens, Opening depth tokens ∧ SpelledTo false tokens before

/-! ## Faults and their places -/

/-- What follows the opening quote of a literal that has no end: characters of a literal, and
perhaps a backslash after which there is nothing. -/
inductive Unclosed : List Char → Prop
  | plain {text body : List Char} (hbody : Literal text body) : Unclosed body
  | backslash {text body : List Char} (hbody : Literal text body) : Unclosed (body ++ ['\\'])

/-- A fault of the source `before ++ after`, its place being between the two parts.  An unclosed
list is the innermost one that is open at the end, all tokens being well-formed; the other faults
leave it open what follows them. -/
inductive FaultAt : ReadFault → (before after : List Char) → Prop
  | closeWithoutOpen {before rest : List Char} (hplace : OpenAt 0 before) :
      FaultAt .closeWithoutOpen before (')' :: rest)
  | unclosedList {depth : Nat} {before rest : List Char} {ds : List Datum}
      (hplace : OpenAt depth before) (hrest : Spells ds rest) :
      FaultAt .unclosedList before ('(' :: rest)
  | unterminatedString {depth : Nat} {before body : List Char} (hplace : OpenAt depth before)
      (hbody : Unclosed body) : FaultAt .unterminatedString before ('"' :: body)
  | unknownEscape {depth : Nat} {before text body rest : List Char} {letter : Char}
      (hplace : OpenAt depth before) (hbody : Literal text body)
      (hletter : letter ∉ escapes.map Prod.fst) :
      FaultAt .unknownEscape (before ++ '"' :: body) ('\\' :: letter :: rest)
  | unexpectedInput {depth : Nat} {before rest : List Char} {c : Char}
      (hplace : OpenAt depth before) (hblank : Text.isBlank c = true)
      (hseparator : c ∉ [' ', '\t', '\r', '\n']) : FaultAt .unexpectedInput before (c :: rest)

/-- The faults that are a missing end, of a list or of a literal. -/
def missingEnds : List ReadFault := [.unclosedList, .unterminatedString]

variable {depth : Nat} {ds ds' : List Datum} {tokens later : List Token} {kind : ReadFault}
  {source before after text body : List Char}

/-! ## Tokens put together -/

theorem Tokens.append (h : Tokens ds tokens) (h' : Tokens ds' later) :
    Tokens (ds ++ ds') (tokens ++ later) := by
  induction h with
  | nil => exact h'
  | symbol _ ih => exact .symbol ih
  | string _ ih => exact .string ih
  | list hinner _ _ ih =>
      rw [List.append_assoc, List.cons_append]
      exact .list hinner ih

theorem Opening.append (h : Opening depth tokens) (hlater : Tokens ds later) :
    Opening depth (tokens ++ later) := by
  cases h with
  | zero htokens => exact .zero (htokens.append hlater)
  | succ hbefore hinner =>
      rw [List.append_assoc, List.cons_append]
      exact .succ hbefore (hinner.append hlater)

theorem Opening.prepend (htokens : Tokens ds tokens) (h : Opening depth later) :
    Opening depth (tokens ++ later) := by
  induction h with
  | zero hlater => exact .zero (htokens.append hlater)
  | succ _ hinner ih =>
      rw [← List.append_assoc]
      exact .succ ih hinner

/-- A closing parenthesis makes an element of the innermost list. -/
theorem Opening.close (h : Opening (depth + 1) tokens) :
    Opening depth (tokens ++ [.closeList]) := by
  cases h with
  | succ hbefore hinner =>
      rw [List.append_assoc, List.cons_append]
      exact hbefore.append (.list hinner .nil)

/-- Tokens close a list that is not open, or leave some number of lists open. -/
theorem unmatched_or_opening (tokens : List Token) :
    (∃ before later, tokens = before ++ .closeList :: later ∧ Opening 0 before) ∨
      ∃ depth, Opening depth tokens := by
  induction tokens using List.reverseRecOn with
  | nil => exact .inr ⟨0, .zero .nil⟩
  | append_singleton tokens token ih =>
      rcases ih with ⟨before, later, rfl, hbefore⟩ | ⟨depth, hopening⟩
      · refine .inl ⟨before, later ++ [token], ?_, hbefore⟩
        rw [List.append_assoc, List.cons_append]
      cases token with
      | openList => exact .inr ⟨depth + 1, .succ hopening .nil⟩
      | closeList =>
          cases depth with
          | zero => exact .inl ⟨tokens, [], rfl, hopening⟩
          | succ depth => exact .inr ⟨depth, hopening.close⟩
      | string text => exact .inr ⟨depth, hopening.append (.string .nil)⟩
      | atom name => exact .inr ⟨depth, hopening.append (.symbol .nil)⟩

/-! ## Places put together -/

theorem OpenAt.exists_spells (h : OpenAt 0 before) : ∃ ds, Spells ds before := by
  obtain ⟨tokens, ⟨htokens⟩, hspelled⟩ := h
  exact ⟨_, tokens, htokens, hspelled.spelled⟩

/-- A source that spells a forest can stand before tokens that begin on a new line: the line feed
keeps atoms apart and ends the comment that may be left. -/
theorem Spelled.spelledTo_line (h : Spelled false tokens source)
    (hlater : SpelledTo false later after) :
    SpelledTo false (tokens ++ later) (source ++ '\n' :: after) := by
  obtain ⟨before, left, rfl, hbefore, hleft⟩ := spelled_iff.mp h
  have hline : Gap (left ++ ['\n']) := by
    cases hleft with
    | nothing => exact .separator (by decide) .nil
    | comment htext => exact .comment htext .nil
  have hsource : SpelledTo true later (left ++ ['\n'] ++ after) :=
    hlater.gap_append hline fun _ hnil => by simp at hnil
  have hboth := hbefore.append hsource
  rw [List.append_assoc] at hboth
  rw [List.append_assoc]
  exact hboth

theorem OpenAt.after_line (h : OpenAt depth before) (hspells : Spells ds source) :
    OpenAt depth (source ++ '\n' :: before) := by
  obtain ⟨tokens, htokens, hspelled⟩ := hspells
  obtain ⟨later, hopening, hbefore⟩ := h
  exact ⟨tokens ++ later, hopening.prepend htokens, hspelled.spelledTo_line hbefore⟩

/-- Two sources with a line feed between them spell both forests. -/
theorem Spells.append_line (h : Spells ds source) (h' : Spells ds' after) :
    Spells (ds ++ ds') (source ++ '\n' :: after) := by
  obtain ⟨tokens, htokens, hspelled⟩ := h
  obtain ⟨later, hlater, hspelled'⟩ := h'
  refine ⟨tokens ++ later, htokens.append hlater, ?_⟩
  obtain ⟨before, left, rfl, hbefore, hleft⟩ := spelled_iff.mp hspelled'
  refine spelled_iff.mpr ⟨source ++ '\n' :: before, left, ?_, ?_, hleft⟩
  · rw [List.append_assoc, List.cons_append]
  · exact hspelled.spelledTo_line hbefore

/-- A list is opened, and elements are written into it. -/
theorem OpenAt.openList {inner : List Token} (h : OpenAt depth before) (hinner : Tokens ds inner)
    (hrest : SpelledTo false inner after) : OpenAt (depth + 1) (before ++ '(' :: after) := by
  obtain ⟨tokens, hopening, hbefore⟩ := h
  exact ⟨_, .succ hopening hinner, hbefore.append (hrest.mark_cons .openList rfl)⟩

/-- A literal is written. -/
theorem OpenAt.string (h : OpenAt depth before) (hbody : Literal text body) :
    OpenAt depth (before ++ '"' :: (body ++ ['"'])) := by
  obtain ⟨tokens, hopening, hbefore⟩ := h
  have hliteral : Literal (String.ofList text).toList body := by
    rw [String.toList_ofList]
    exact hbody
  have hstring := SpelledTo.mark (.string hliteral) rfl
  exact ⟨_, hopening.append (.string .nil), hbefore.append hstring⟩

/-- The lists that are open can be closed. -/
theorem OpenAt.exists_closed (h : OpenAt depth before) :
    ∃ later ds, Spells ds (before ++ later) := by
  induction depth generalizing before with
  | zero =>
      obtain ⟨ds, hspells⟩ := h.exists_spells
      exact ⟨[], ds, by rw [List.append_nil]; exact hspells⟩
  | succ depth ih =>
      obtain ⟨tokens, hopening, hspelled⟩ := h
      have hclose : SpelledTo true [.closeList] [')'] := .mark .closeList rfl
      obtain ⟨later, ds, hspells⟩ := ih ⟨_, hopening.close, hspelled.append hclose⟩
      refine ⟨')' :: later, ds, ?_⟩
      rw [List.append_assoc] at hspells
      exact hspells

/-! ## Every source spells a forest or has a fault -/

theorem Literal.append {text' body' : List Char} (h : Literal text body)
    (h' : Literal text' body') : Literal (text ++ text') (body ++ body') := by
  induction h with
  | nil => exact h'
  | plain hquote hslash _ ih => exact .plain hquote hslash ih
  | escape hletter _ ih => exact .escape hletter ih

theorem unescape?_eq_none_iff {letter : Char} :
    unescape? letter = none ↔ letter ∉ escapes.map Prod.fst := by
  rw [Option.eq_none_iff_forall_ne_some, List.mem_map]
  constructor
  · rintro hnone ⟨⟨letter, c⟩, hmem, rfl⟩
    exact hnone c (unescape?_eq_some_iff.mpr hmem)
  · intro hnone c hsome
    exact hnone ⟨(letter, c), unescape?_eq_some_iff.mp hsome, rfl⟩

/-- What is at fault in a literal: it has no end, or an unknown escape follows its characters. -/
inductive LiteralFault (start : List Char) : List Char → Fault → Prop
  | unterminated {body : List Char} (hbody : Unclosed body) :
      LiteralFault start body ⟨.unterminatedString, start⟩
  | unknown {text body rest : List Char} {letter : Char} (hbody : Literal text body)
      (hletter : letter ∉ escapes.map Prod.fst) :
      LiteralFault start (body ++ '\\' :: letter :: rest)
        ⟨.unknownEscape, '\\' :: letter :: rest⟩

theorem LiteralFault.prepend {start : List Char} {fault : Fault} (hbody : Literal text body)
    (h : LiteralFault start source fault) : LiteralFault start (body ++ source) fault := by
  cases h with
  | unterminated hrest =>
      cases hrest with
      | plain hrest => exact .unterminated (.plain (hbody.append hrest))
      | backslash hrest =>
          rw [← List.append_assoc]
          exact .unterminated (.backslash (hbody.append hrest))
  | unknown hrest hletter =>
      rw [← List.append_assoc]
      exact .unknown (hbody.append hrest) hletter

theorem eq_error_of_map {α β ε : Type} {f : α → β} {result : Except ε α} {e : ε}
    (h : result.map f = .error e) : result = .error e := by
  cases result with
  | error =>
      cases h
      rfl
  | ok a => cases h

/-- The scanner of literals fails exactly where one is at fault. -/
theorem scanString_eq_error_iff {start source : List Char} {fault : Fault} :
    scanString start source = .error fault ↔ LiteralFault start source fault := by
  constructor
  · intro h
    fun_induction scanString start source with
    | case1 =>
        cases h
        exact .unterminated (.plain .nil)
    | case2 => cases h
    | case3 =>
        cases h
        exact .unterminated (.backslash .nil)
    | case4 letter rest resolved hletter _ ih =>
        exact (ih (eq_error_of_map h)).prepend (.escape (unescape?_eq_some_iff.mp hletter) .nil)
    | case5 letter rest hletter =>
        cases h
        exact .unknown .nil (unescape?_eq_none_iff.mp hletter)
    | case6 c rest hquote hslash ih =>
        exact (ih (eq_error_of_map h)).prepend (.plain hquote hslash .nil)
  · intro h
    cases h with
    | unterminated hbody =>
        cases hbody with
        | plain hbody =>
            have hscan := scanString_append hbody start []
            rw [List.append_nil] at hscan
            rw [hscan, scanString.eq_def]
            rfl
        | backslash hbody =>
            rw [scanString_append hbody, scanString.eq_def]
            rfl
    | unknown hbody hletter =>
        rw [scanString_append hbody, scanString.eq_def]
        simp only [unescape?_eq_none_iff.mpr hletter]
        rfl

theorem scanToken_quote_eq_error_iff {rest : List Char} {fault : Fault} :
    scanToken '"' rest = .error fault ↔ LiteralFault ('"' :: rest) rest fault := by
  rw [← scanString_eq_error_iff]
  unfold scanToken
  rw [if_neg (by decide), if_neg (by decide), if_pos rfl]
  cases scanString ('"' :: rest) rest with
  | ok pair => exact ⟨nofun, nofun⟩
  | error fault =>
      constructor
      · exact eq_error_of_map
      · intro h
        cases h
        rfl

/-- Only separators may stand between tokens, and no other blank. -/
theorem scanToken_blank {c : Char} (hblank : Text.isBlank c = true) (rest : List Char) :
    scanToken c rest = .error ⟨.unexpectedInput, c :: rest⟩ := by
  have hne (d : Char) (hd : Text.isBlank d = false) : c ≠ d := by
    rintro rfl
    rw [hd] at hblank
    cases hblank
  have hdelimiter : isDelimiter c = true := by simp [isDelimiter, hblank]
  unfold scanToken
  rw [if_neg (hne '(' rfl), if_neg (hne ')' rfl), if_neg (hne '"' rfl), if_pos hdelimiter]

/-- Where a token fails the source has a fault. -/
theorem OpenAt.exists_faultAt {c : Char} {rest : List Char} {fault : Fault}
    (hplace : OpenAt depth before) (hstart : TokenStart c)
    (h : scanToken c rest = .error fault) :
    ∃ place, before ++ c :: rest = place ++ fault.start ∧
      FaultAt fault.kind place fault.start := by
  by_cases hquote : c = '"'
  · subst hquote
    cases scanToken_quote_eq_error_iff.mp h with
    | unterminated hbody => exact ⟨before, rfl, .unterminatedString hplace hbody⟩
    | @unknown text body rest letter hbody hletter =>
        exact ⟨before ++ '"' :: body, by simp, .unknownEscape hplace hbody hletter⟩
  · have hseparator : c ∉ [' ', '\t', '\r', '\n'] := by
      rw [← isSeparator_iff, hstart.separator]
      exact Bool.false_ne_true
    unfold scanToken at h
    split_ifs at h with hopen hclose hdelimiter
    cases h
    have hblank : Text.isBlank c = true := by
      simpa [isDelimiter, hopen, hclose, hquote, hstart.comment] using hdelimiter
    exact ⟨before, rfl, .unexpectedInput hplace hblank hseparator⟩

/-- The faults that are no matter of parentheses are faults of a token. -/
theorem FaultAt.exists_scanToken (h : FaultAt kind before after)
    (hkind : kind ∉ [.closeWithoutOpen, .unclosedList]) :
    ∃ depth place c rest, before ++ after = place ++ c :: rest ∧ OpenAt depth place ∧
      TokenStart c ∧ scanToken c rest = .error ⟨kind, after⟩ := by
  have hquote : TokenStart '"' := ⟨by decide, by decide⟩
  cases h with
  | closeWithoutOpen => exact absurd List.mem_cons_self hkind
  | unclosedList => exact absurd (List.mem_cons_of_mem _ List.mem_cons_self) hkind
  | @unterminatedString depth before body hplace hbody =>
      exact ⟨depth, before, '"', body, rfl, hplace, hquote,
        scanToken_quote_eq_error_iff.mpr (.unterminated hbody)⟩
  | @unknownEscape depth before text body rest letter hplace hbody hletter =>
      refine ⟨depth, before, '"', body ++ '\\' :: letter :: rest, ?_, hplace, hquote,
        scanToken_quote_eq_error_iff.mpr (.unknown hbody hletter)⟩
      rw [List.append_assoc, List.cons_append]
  | @unexpectedInput depth before rest c hplace hblank hseparator =>
      have hstart : TokenStart c := by
        refine ⟨Bool.eq_false_iff.mpr (mt isSeparator_iff.mp hseparator), ?_⟩
        rintro rfl
        cases hblank
      exact ⟨depth, before, c, rest, rfl, hplace, hstart, scanToken_blank hblank rest⟩

/-- Where all tokens are well-formed a forest is spelled, or the innermost open list has no end. -/
theorem OpenAt.spells_or_faultAt (hplace : OpenAt depth before) (hleft : Left after none) :
    (∃ ds, Spells ds (before ++ after)) ∨
      ∃ place rest, before ++ after = place ++ rest ∧ FaultAt .unclosedList place rest := by
  obtain ⟨tokens, hopening, hbefore⟩ := hplace
  cases hopening with
  | zero htokens =>
      exact .inl ⟨_, tokens, htokens, spelled_iff.mpr ⟨before, after, rfl, hbefore, hleft⟩⟩
  | @succ depth ds outer inner houter hinner =>
      obtain ⟨first, written, rest, rfl, hfirst, hwritten, hrest⟩ := hbefore.exists_of_append
      cases hwritten with
      | openList =>
          have hspells : Spells ds (rest ++ after) :=
            ⟨inner, hinner, spelled_iff.mpr ⟨rest, after, rfl, hrest, hleft⟩⟩
          refine .inr ⟨first, '(' :: (rest ++ after), ?_,
            .unclosedList ⟨outer, houter, hfirst⟩ hspells⟩
          rw [List.append_assoc, List.append_assoc]
          rfl

/-- Every source spells a forest or has a fault. -/
theorem spells_or_faultAt (source : List Char) :
    (∃ ds, Spells ds source) ∨
      ∃ kind before after, source = before ++ after ∧ FaultAt kind before after := by
  cases hscan : scan source with
  | mk lexemes fault =>
      obtain ⟨before, after, rfl, hbefore, hleft⟩ :=
        exists_spelledTo_of_scan false source hscan nofun
      rcases unmatched_or_opening (lexemes.map Lexeme.token) with
        ⟨tokens, later, htokens, hopening⟩ | ⟨depth, hopening⟩
      -- A parenthesis that closes nothing comes before whatever is left at the end.
      · rw [htokens] at hbefore
        obtain ⟨first, written, rest, rfl, hfirst, hwritten, -⟩ := hbefore.exists_of_append
        cases hwritten with
        | closeList =>
            refine .inr ⟨_, first, ')' :: (rest ++ after), ?_,
              .closeWithoutOpen ⟨tokens, hopening, hfirst⟩⟩
            rw [List.append_assoc, List.append_assoc]
            rfl
      have hplace : OpenAt depth before := ⟨_, hopening, hbefore⟩
      cases fault with
      | none =>
          rcases hplace.spells_or_faultAt hleft with hspells | ⟨place, rest, hsource, hfault⟩
          · exact .inl hspells
          · exact .inr ⟨_, place, rest, hsource, hfault⟩
      | some fault =>
          cases hleft with
          | fault hstart hfault =>
              obtain ⟨place, hsource, hfault⟩ := hplace.exists_faultAt hstart hfault
              exact .inr ⟨_, place, _, hsource, hfault⟩

/-! ## Sources that go on -/

/-- A fault other than a missing end is there whatever follows it. -/
theorem FaultAt.extend (h : FaultAt kind before after) (hkind : kind ∉ missingEnds)
    (more : List Char) : FaultAt kind before (after ++ more) := by
  cases h with
  | closeWithoutOpen hplace => exact .closeWithoutOpen hplace
  | unclosedList => exact absurd List.mem_cons_self hkind
  | unterminatedString => exact absurd (List.mem_cons_of_mem _ List.mem_cons_self) hkind
  | unknownEscape hplace hbody hletter => exact .unknownEscape hplace hbody hletter
  | unexpectedInput hplace hblank hseparator => exact .unexpectedInput hplace hblank hseparator

/-- A missing end can be written behind the source. -/
theorem FaultAt.exists_mended (h : FaultAt kind before after) (hkind : kind ∈ missingEnds) :
    ∃ more ds, Spells ds (before ++ after ++ more) := by
  cases h with
  | @unclosedList depth before rest ds hplace hrest =>
      obtain ⟨inner, hinner, hspelled⟩ := hrest
      have hline := hspelled.spelledTo_line (.nil .nil)
      rw [List.append_nil] at hline
      obtain ⟨later, ds, hspells⟩ := (hplace.openList hinner hline).exists_closed
      exact ⟨'\n' :: later, ds, by simpa using hspells⟩
  | unterminatedString hplace hbody =>
      cases hbody with
      | plain hbody =>
          obtain ⟨later, ds, hspells⟩ := (hplace.string hbody).exists_closed
          exact ⟨'"' :: later, ds, by simpa using hspells⟩
      | backslash hbody =>
          -- After the backslash the first quote belongs to the literal, and the second ends it.
          have hquote : Literal ['"'] ['\\', '"'] := .escape (by decide) .nil
          obtain ⟨later, ds, hspells⟩ := (hplace.string (hbody.append hquote)).exists_closed
          exact ⟨'"' :: '"' :: later, ds, by simpa using hspells⟩
  | _ => exact absurd hkind (by decide)

/-- A fault keeps its place in what follows a spelled forest and a line feed. -/
theorem FaultAt.after_line (h : FaultAt kind before after) (hspells : Spells ds source) :
    FaultAt kind (source ++ '\n' :: before) after := by
  cases h with
  | closeWithoutOpen hplace => exact .closeWithoutOpen (hplace.after_line hspells)
  | unclosedList hplace hrest => exact .unclosedList (hplace.after_line hspells) hrest
  | unterminatedString hplace hbody =>
      exact .unterminatedString (hplace.after_line hspells) hbody
  | unknownEscape hplace hbody hletter =>
      rw [← List.cons_append, ← List.append_assoc]
      exact .unknownEscape (hplace.after_line hspells) hbody hletter
  | unexpectedInput hplace hblank hseparator =>
      exact .unexpectedInput (hplace.after_line hspells) hblank hseparator

end Source
end LispFront
