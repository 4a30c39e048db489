import LispFront.Proofs.Layout.LaidOut
import Mathlib.Data.List.Forall2

/-!
# Colours

A coloured rendering is the plain one with colour sequences in it.  `Stretch` says how the two
hang together: a rendering is made of characters that are never coloured and of words that are
coloured as a whole, each between the sequences that begin its style and the one that ends it.
`Document.Colors` tells the words of a document, in order; it is kept by everything that documents
are put together with, so that neither the width nor the colours change the words.

As long as no word has an escape character, the sequences can be told from the rest: deleting them
leaves the plain text (`uncoloredFrom_written`), and each one that is not a reset stands in front of
its word (`reset_or_opensWord`).
-/

namespace LispFront
namespace Layout

/-! ## Deleting colour sequences -/

/-- The character that begins a colour sequence. -/
def escape : Char := '\x1b'

/-- The length of the parameters at the beginning of a text, with the letter that ends them. -/
def parametersLength? : List Char → Option Nat
  | [] => none
  | c :: rest =>
    if c = 'm' then some 1
    else if c.isDigit || c = ';' then (parametersLength? rest).map (· + 1)
    else none

/-- The length of the colour sequence at the beginning of a text. -/
def sequenceLength? : List Char → Option Nat
  | a :: b :: rest => if a = escape ∧ b = '[' then (parametersLength? rest).map (· + 2) else none
  | _ => none

/-- The text without its colour sequences, and without its first `skip` characters. -/
def uncoloredFrom : (skip : Nat) → List Char → List Char
  | _, [] => []
  | skip + 1, _ :: rest => uncoloredFrom skip rest
  | 0, c :: rest =>
    match sequenceLength? (c :: rest) with
    | some length => uncoloredFrom (length - 1) rest
    | none => c :: uncoloredFrom 0 rest

/-- The text without its colour sequences. -/
def uncolored (text : String) : String := String.ofList (uncoloredFrom 0 text.toList)

variable {before after u v : List Char}

theorem uncoloredFrom_cons {c : Char} (hc : c ≠ escape) (rest : List Char) :
    uncoloredFrom 0 (c :: rest) = c :: uncoloredFrom 0 rest := by
  have hnone : sequenceLength? (c :: rest) = none := by
    cases rest with
    | nil => rfl
    | cons b rest => exact if_neg fun hboth => hc hboth.1
  rw [uncoloredFrom, hnone]

/-- What has no escape character stays. -/
theorem uncoloredFrom_append (hu : escape ∉ u) (v : List Char) :
    uncoloredFrom 0 (u ++ v) = u ++ uncoloredFrom 0 v := by
  induction u with
  | nil => rfl
  | cons c u ih =>
      rw [List.mem_cons, not_or] at hu
      rw [List.cons_append, uncoloredFrom_cons (Ne.symm hu.1), ih hu.2, List.cons_append]

theorem uncoloredFrom_reset (v : List Char) :
    uncoloredFrom 0 (resetSequence.toList ++ v) = uncoloredFrom 0 v := rfl

theorem uncoloredFrom_sequence (style : Style) (v : List Char) :
    uncoloredFrom 0 (style.sequence.toList ++ v) = uncoloredFrom 0 v := by
  obtain ⟨color, bold⟩ := style
  cases color <;> cases bold <;> rfl

/-! ## Stretches -/

/-- A text that is coloured as a whole. -/
structure Word where
  style : Style
  text : String
deriving DecidableEq, Repr

/-- The characters that are never coloured: parentheses, separators and line ends. -/
inductive Filler where
  | opening
  | closing
  | space
  | lineFeed
deriving DecidableEq, Repr

/-- The character that it is. -/
def Filler.char : Filler → Char
  | opening => '('
  | closing => ')'
  | space => ' '
  | lineFeed => '\n'

/-- A part of a rendering: a character without colour, or a word. -/
inductive Stretch where
  | filler (f : Filler)
  | word (w : Word)
deriving DecidableEq, Repr

namespace Stretch

/-- The word that a stretch is. -/
def word? : Stretch → Option Word
  | filler _ => none
  | word w => some w

/-- The text of a stretch, with colours or without. -/
def chars (color : Bool) : Stretch → List Char
  | filler f => [f.char]
  | word w =>
    if color then w.style.sequence.toList ++ (w.text.toList ++ resetSequence.toList)
    else w.text.toList

/-- The text of stretches, with colours or without. -/
def written (color : Bool) (stretches : List Stretch) : List Char :=
  stretches.flatMap (chars color)

/-- The words among stretches, in order. -/
def words (stretches : List Stretch) : List Word := stretches.filterMap word?

theorem written_append (color : Bool) (before after : List Stretch) :
    written color (before ++ after) = written color before ++ written color after :=
  List.flatMap_append

theorem words_append (before after : List Stretch) :
    words (before ++ after) = words before ++ words after := List.filterMap_append

theorem written_spaces (color : Bool) (n : Nat) :
    written color (List.replicate n (.filler .space)) = List.replicate n ' ' := by
  induction n with
  | zero => rfl
  | succ n ih =>
      rw [List.replicate_succ, List.replicate_succ, ← ih]
      rfl

theorem words_spaces (n : Nat) : words (List.replicate n (.filler .space)) = [] := by
  induction n with
  | zero => rfl
  | succ n ih => rw [List.replicate_succ, ← ih]; rfl

end Stretch

open Stretch

/-! ## Documents with words -/

namespace Document

variable {d e separator : Document} {ws ws' : List Word}

/-- However the document is rendered, its stretches have these words, in order, and no word has an
escape character. -/
structure Colors (d : Document) (ws : List Word) : Prop where
  unescaped : ∀ w ∈ ws, escape ∉ w.text.toList
  rendered : ∀ width indent mode rest column, ∃ stretches, words stretches = ws ∧
    ∀ color, (textOf color (renderFrom width d indent mode rest column).1).toList =
      written color stretches

theorem colors_empty : Colors .empty [] where
  unescaped := nofun
  rendered _ _ _ _ _ := ⟨[], rfl, fun _ => rfl⟩

/-- A piece that begins and ends no style is the same with colours and without. -/
theorem toList_textOf_of_colored_eq {piece : Piece} (hpiece : piece.colored = piece.plain)
    (color : Bool) : (textOf color [piece]).toList = piece.plain.toList := by
  cases color with
  | false => exact toList_textOf_singleton piece
  | true => simp [textOf, String.join, hpiece]

theorem colors_filler (f : Filler) : Colors (.text (String.singleton f.char)) [] where
  unescaped := nofun
  rendered _ _ _ _ _ := ⟨[.filler f], rfl, fun color => by
    rw [renderFrom, toList_textOf_of_colored_eq rfl, Piece.plain, String.toList_singleton]
    rfl⟩

theorem colors_line : Colors .line [] where
  unescaped := nofun
  rendered width indent mode rest column := by
    cases mode with
    | flat => exact ⟨[.filler .space], rfl, fun color => toList_textOf_of_colored_eq rfl color⟩
    | broken =>
        refine ⟨.filler .lineFeed :: List.replicate ((rest.head?.map (·.indent)).getD indent)
          (.filler .space), words_spaces _, fun color => ?_⟩
        rw [renderFrom, toList_textOf_of_colored_eq rfl, toList_newline, ← written_spaces color]
        rfl

/-- A text with a style is a word. -/
theorem colors_word (style : Style) {s : String} (hs : escape ∉ s.toList) :
    Colors (.styled style (.text s)) [⟨style, s⟩] where
  unescaped := by simpa using hs
  rendered _ _ _ _ _ := ⟨[.word ⟨style, s⟩], rfl, fun color => by
    cases color <;> simp [renderFrom, textOf, String.join, Piece.colored, Piece.plain, written,
      chars]⟩

theorem Colors.append (h : Colors d ws) (hlater : Colors e ws') : Colors (d ++ e) (ws ++ ws') where
  unescaped w hw := (List.mem_append.mp hw).elim (h.unescaped w) (hlater.unescaped w)
  rendered width indent mode rest column := by
    obtain ⟨before, hbefore, htext⟩ :=
      h.rendered width indent mode (⟨indent, e⟩ :: rest) column
    obtain ⟨after, hafter, htext'⟩ := hlater.rendered width indent mode rest
      (renderFrom width d indent mode (⟨indent, e⟩ :: rest) column).2
    refine ⟨before ++ after, by rw [words_append, hbefore, hafter], fun color => ?_⟩
    rw [written_append, ← htext color, ← htext' color, ← toList_textOf_append]
    rfl

theorem Colors.nest (h : Colors d ws) (columns : Nat) : Colors (.nest columns d) ws where
  unescaped := h.unescaped
  rendered width indent mode rest column := h.rendered width (indent + columns) mode rest column

theorem Colors.group (h : Colors d ws) : Colors (.group d) ws where
  unescaped := h.unescaped
  rendered width indent _ rest column := h.rendered width indent _ rest column

theorem Colors.align (h : Colors d ws) : Colors (.align d) ws where
  unescaped := h.unescaped
  rendered width _ mode rest column := h.rendered width column mode rest column

theorem Colors.parenthesized (h : Colors d ws) : Colors (.parenthesized d) ws := by
  have hall := ((colors_filler .opening).append h).append (colors_filler .closing)
  rw [List.append_nil, List.nil_append] at hall
  exact hall

/-- The documents have words, each its share. -/
inductive ColorsAll : List Document → List Word → Prop
  | nil : ColorsAll [] []
  | cons {d : Document} {documents : List Document} {ws rest : List Word} (hd : Colors d ws)
      (hrest : ColorsAll documents rest) : ColorsAll (d :: documents) (ws ++ rest)

variable {documents later : List Document}

theorem ColorsAll.singleton (h : Colors d ws) : ColorsAll [d] ws := by
  have hall := ColorsAll.cons h .nil
  rw [List.append_nil] at hall
  exact hall

theorem ColorsAll.append (h : ColorsAll documents ws) (hlater : ColorsAll later ws') :
    ColorsAll (documents ++ later) (ws ++ ws') := by
  induction h with
  | nil => exact hlater
  | cons hd _ ih =>
      rw [List.append_assoc]
      exact .cons hd ih

theorem colorsAll_flatten {groups : List (List Document)} {wordGroups : List (List Word)}
    (h : List.Forall₂ ColorsAll groups wordGroups) :
    ColorsAll groups.flatten wordGroups.flatten := by
  induction h with
  | nil => exact .nil
  | cons hgroup _ ih => exact hgroup.append ih

theorem colorsAll_map {α : Type} {f : α → Document} {g : α → List Word} {xs : List α}
    (h : ∀ x ∈ xs, Colors (f x) (g x)) : ColorsAll (xs.map f) (xs.flatMap g) := by
  induction xs with
  | nil => exact .nil
  | cons x xs ih =>
      rw [List.flatMap_cons]
      exact .cons (h x List.mem_cons_self) (ih fun y hy => h y (List.mem_cons_of_mem _ hy))

/-- No word stands between two documents. -/
theorem ColorsAll.separated (hseparator : Colors separator []) (h : ColorsAll documents ws) :
    Colors (.separated separator documents) ws := by
  induction h with
  | nil => exact colors_empty
  | @cons d documents ws rest hd hrest ih =>
      cases hrest with
      | nil =>
          rw [List.append_nil]
          exact hd
      | cons =>
          have hall := (hd.append hseparator).append ih
          rw [List.append_nil] at hall
          exact hall

end Document

/-! ## Telling the sequences from the rest -/

variable {stretches : List Stretch}

/-- Without its colour sequences, a coloured text is the plain one. -/
theorem uncoloredFrom_written (h : ∀ w ∈ words stretches, escape ∉ w.text.toList) :
    uncoloredFrom 0 (written true stretches) = written false stretches := by
  induction stretches with
  | nil => rfl
  | cons stretch stretches ih =>
      cases stretch with
      | filler f =>
          have hf : f.char ≠ escape := by cases f <;> decide
          show uncoloredFrom 0 (f.char :: written true stretches) =
            f.char :: written false stretches
          rw [uncoloredFrom_cons hf, ih h]
      | word w =>
          have hw : escape ∉ w.text.toList := h w List.mem_cons_self
          have hrest := ih fun other hother => h other (List.mem_cons_of_mem _ hother)
          show uncoloredFrom 0 ((w.style.sequence.toList ++
            (w.text.toList ++ resetSequence.toList)) ++ written true stretches) =
              w.text.toList ++ written false stretches
          rw [List.append_assoc, uncoloredFrom_sequence, List.append_assoc,
            uncoloredFrom_append hw, uncoloredFrom_reset, hrest]

/-- An escape character stands behind a text that has none. -/
theorem exists_of_append_eq (hu : escape ∉ u) (h : u ++ v = before ++ escape :: after) :
    ∃ later, v = later ++ escape :: after := by
  rcases List.append_eq_append_iff.mp h with ⟨later, -, hv⟩ | ⟨inner, hinner, hv⟩
  · exact ⟨later, hv⟩
  · cases inner with
    | nil => exact ⟨[], hv.symm⟩
    | cons c inner =>
        obtain ⟨rfl, -⟩ := List.cons.inj hv
        exact absurd (hinner ▸ List.mem_append_right _ List.mem_cons_self) hu

/-- An escape character begins a sequence, or stands behind it. -/
theorem eq_or_exists_of_sequence (hu : escape ∉ u)
    (h : escape :: u ++ v = before ++ escape :: after) :
    escape :: after = escape :: u ++ v ∨ ∃ later, v = later ++ escape :: after := by
  cases before with
  | nil => exact .inl h.symm
  | cons c before => exact .inr (exists_of_append_eq hu (List.cons.inj h).2)

/-- The sequence that sets a colour. -/
def Color.setting (color : Color) : List Char := "\x1b[3".toList ++ (color.digit.toList ++ ['m'])

/-- The sequence that makes what follows bold. -/
def boldSequence : List Char := "\x1b[1m".toList

/-- Whether a text is what is left of the sequences of a style after its reset, from the one for
bold or from the one for the colour on. -/
def Style.Opening (style : Style) (opening : List Char) : Prop :=
  opening = style.color.setting ∨ style.bold ∧ opening = boldSequence ++ style.color.setting

/-- The sequences of a style are a reset and an opening. -/
theorem sequence_cases {style : Style}
    (h : style.sequence.toList ++ v = before ++ escape :: after) :
    resetSequence.toList <+: escape :: after ∨
      (∃ opening, style.Opening opening ∧ escape :: after = opening ++ v) ∨
      ∃ later, v = later ++ escape :: after := by
  obtain ⟨color, bold⟩ := style
  -- The sequence of the colour is the last one, with that for bold in front of it or without.
  have hsetting {before : List Char}
      (h : color.setting ++ v = before ++ escape :: after) :
      (∃ opening, Style.Opening ⟨color, bold⟩ opening ∧ escape :: after = opening ++ v) ∨
        ∃ later, v = later ++ escape :: after := by
    have hcases : escape :: after = color.setting ++ v ∨ ∃ later, v = later ++ escape :: after := by
      cases color <;> exact eq_or_exists_of_sequence (by decide) h
    exact hcases.imp_left fun heq => ⟨_, .inl rfl, heq⟩
  have hreset : (Style.sequence ⟨color, bold⟩).toList ++ v = resetSequence.toList ++
      ((if bold then boldSequence else []) ++ (color.setting ++ v)) := by
    cases color <;> cases bold <;> rfl
  rw [hreset] at h
  rcases eq_or_exists_of_sequence (by decide) h with heq | ⟨later, hlater⟩
  · exact .inl ⟨_, heq.symm⟩
  cases bold with
  | false => exact .inr (hsetting hlater)
  | true =>
      rcases eq_or_exists_of_sequence (by decide) hlater with heq | ⟨later, hlater⟩
      · exact .inr (.inl ⟨_, .inr ⟨rfl, rfl⟩, heq.trans (List.append_assoc _ _ _).symm⟩)
      · exact .inr (hsetting hlater)

/-- Whether a text is the rest of a coloured rendering from an opening on: behind the opening stand
its word, a reset and the later stretches. -/
def OpensWord (stretches : List Stretch) (text : List Char) : Prop :=
  ∃ earlier w later, stretches = earlier ++ .word w :: later ∧
    ∃ opening, w.style.Opening opening ∧
      text = opening ++ (w.text.toList ++ (resetSequence.toList ++ written true later))

/-- Every sequence is a reset, or opens the style of the word that follows it. -/
theorem reset_or_opensWord (h : ∀ w ∈ words stretches, escape ∉ w.text.toList)
    (hsplit : written true stretches = before ++ escape :: after) :
    resetSequence.toList <+: escape :: after ∨ OpensWord stretches (escape :: after) := by
  induction stretches generalizing before with
  | nil => exact absurd hsplit.symm (List.append_ne_nil_of_right_ne_nil _ (List.cons_ne_nil _ _))
  | cons stretch stretches ih =>
      have hlater {before : List Char}
          (hsub : ∀ w ∈ words stretches, escape ∉ w.text.toList)
          (hrest : written true stretches = before ++ escape :: after) :
          resetSequence.toList <+: escape :: after ∨
            OpensWord (stretch :: stretches) (escape :: after) := by
        refine (ih hsub hrest).imp_right ?_
        rintro ⟨earlier, w, later, rfl, hw⟩
        exact ⟨stretch :: earlier, w, later, rfl, hw⟩
      cases stretch with
      | filler f =>
          have hf : escape ∉ [f.char] := by cases f <;> decide
          obtain ⟨rest, hrest⟩ := exists_of_append_eq hf hsplit
          exact hlater h hrest
      | word w =>
          have hw : escape ∉ w.text.toList := h w List.mem_cons_self
          have hsub : ∀ w ∈ words stretches, escape ∉ w.text.toList :=
            fun other hother => h other (List.mem_cons_of_mem _ hother)
          have hall : w.style.sequence.toList ++ (w.text.toList ++ (resetSequence.toList ++
              written true stretches)) = before ++ escape :: after := by
            rw [← hsplit]
            show _ = (w.style.sequence.toList ++
              (w.text.toList ++ resetSequence.toList)) ++ written true stretches
            rw [List.append_assoc, List.append_assoc]
          -- The sequence is one of the style, or stands behind it; the text has none.
          rcases sequence_cases hall with hreset | ⟨opening, hopening, heq⟩ | ⟨rest, hrest⟩
          · exact .inl hreset
          · exact .inr ⟨[], w, stretches, rfl, opening, hopening, heq⟩
          obtain ⟨rest, hrest⟩ := exists_of_append_eq hw hrest
          rcases eq_or_exists_of_sequence (by decide) hrest with heq | ⟨rest, hrest⟩
          · exact .inl ⟨_, heq.symm⟩
          · exact hlater hsub hrest

theorem Style.Opening.exists_cons {style : Style} {opening : List Char}
    (h : style.Opening opening) : ∃ rest, opening = escape :: rest := by
  rcases h with rfl | ⟨-, rfl⟩
  · exact ⟨_, rfl⟩
  · exact ⟨_, rfl⟩

/-- The last sequence is a reset. -/
theorem reset_of_last (h : ∀ w ∈ words stretches, escape ∉ w.text.toList)
    (hsplit : written true stretches = before ++ escape :: after) (hlast : escape ∉ after) :
    resetSequence.toList <+: escape :: after := by
  rcases reset_or_opensWord h hsplit with hreset | ⟨_, w, later, -, opening, hopening, htext⟩
  · exact hreset
  · obtain ⟨rest, rfl⟩ := hopening.exists_cons
    have hafter : after =
        rest ++ (w.text.toList ++ (resetSequence.toList ++ written true later)) :=
      (List.cons.inj htext).2
    have hmem : escape ∈ resetSequence.toList ++ written true later :=
      List.mem_append_left _ (by decide)
    exact absurd (hafter ▸ List.mem_append_right _ (List.mem_append_right _ hmem)) hlast

end Layout
end LispFront
