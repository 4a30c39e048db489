import LispFront.Proofs.Source.Lexing

/-!
# Places between tokens

A source is what stands before a place and what stands after it.  `SpelledTo` is the grammar of the
part before a place between tokens: like `Spelled`, but it ends with a gap, so that no comment is
open there.  Where scanning ends there is nothing, or a comment that no line feed ends, or a fault
(`Left`).  Every source is its tokens and what is left of it (`exists_spelledTo_of_scan`), and what
is scanned before a place does not depend on what follows it, as long as an atom ends there
(`scan_of_spelledTo`).
-/

namespace LispFront
namespace Source

/-- Tokens and a source that spells them up to a place where the next one can begin.  The flag says
whether an atom stands right before the source. -/
inductive SpelledTo : (afterAtom : Bool) → List Token → List Char → Prop
  | nil {afterAtom : Bool} {gap : List Char} (hgap : Gap gap) : SpelledTo afterAtom [] gap
  | cons {afterAtom : Bool} {token : Token} {tokens : List Token}
      {gap written rest : List Char} (hgap : Gap gap)
      (happart : afterAtom = true → token.isAtom = true → gap ≠ [])
      (hwritten : Written token written) (hrest : SpelledTo token.isAtom tokens rest) :
      SpelledTo afterAtom (token :: tokens) (gap ++ written ++ rest)

/-- What is left of a source where scanning ends, and the fault in it. -/
inductive Left : List Char → Option Fault → Prop
  | nothing : Left [] none
  | comment {text : List Char} (htext : '\n' ∉ text) : Left (';' :: text) none
  | fault {c : Char} {rest : List Char} {fault : Fault} (hstart : TokenStart c)
      (hfault : scanToken c rest = .error fault) : Left (c :: rest) (some fault)

variable {afterAtom : Bool} {tokens later : List Token} {token : Token} {fault : Option Fault}
  {gap source before after : List Char}

/-! ## Gaps -/

theorem Gap.append {gap' : List Char} (h : Gap gap) (h' : Gap gap') : Gap (gap ++ gap') := by
  induction h with
  | nil => exact h'
  | separator hc _ ih => exact .separator hc ih
  | comment htext _ ih =>
      rw [List.cons_append, List.append_assoc, List.cons_append]
      exact .comment htext ih

/-- A last gap is a gap and what is left after it. -/
theorem lastGap_iff :
    LastGap source ↔ ∃ gap after, source = gap ++ after ∧ Gap gap ∧ Left after none := by
  constructor
  · intro h
    cases h with
    | gap hgap => exact ⟨source, [], (List.append_nil _).symm, hgap, .nothing⟩
    | comment hgap htext => exact ⟨_, _, rfl, hgap, .comment htext⟩
  · rintro ⟨gap, after, rfl, hgap, hleft⟩
    cases hleft with
    | nothing =>
        rw [List.append_nil]
        exact .gap hgap
    | comment htext => exact .comment hgap htext

/-- Tokens are spelled by a source that spells them up to a place where nothing is left but a
comment. -/
theorem spelled_iff : Spelled afterAtom tokens source ↔
    ∃ before after, source = before ++ after ∧ SpelledTo afterAtom tokens before ∧
      Left after none := by
  constructor
  · intro h
    induction h with
    | nil hgap =>
        obtain ⟨gap, after, rfl, hgap, hleft⟩ := lastGap_iff.mp hgap
        exact ⟨gap, after, rfl, .nil hgap, hleft⟩
    | cons hgap happart hwritten _ ih =>
        obtain ⟨before, after, rfl, hbefore, hleft⟩ := ih
        exact ⟨_, after, (List.append_assoc _ _ _).symm, .cons hgap happart hwritten hbefore,
          hleft⟩
  · rintro ⟨before, after, rfl, hbefore, hleft⟩
    induction hbefore with
    | nil hgap => exact .nil (lastGap_iff.mpr ⟨_, after, rfl, hgap, hleft⟩)
    | cons hgap happart hwritten _ ih =>
        rw [List.append_assoc]
        exact .cons hgap happart hwritten ih

theorem SpelledTo.spelled (h : SpelledTo afterAtom tokens source) :
    Spelled afterAtom tokens source :=
  spelled_iff.mpr ⟨source, [], (List.append_nil _).symm, h, .nothing⟩

/-! ## Scanning up to a place -/

/-- A source is scanned into its tokens up to a place and the fault in what is left there. -/
theorem exists_spelledTo_of_scan (afterAtom : Bool) (source : List Char) {lexemes : List Lexeme}
    {fault : Option Fault} (h : scan source = (lexemes, fault))
    (hends : afterAtom = true → AtomEnds source) :
    ∃ before after, source = before ++ after ∧
      SpelledTo afterAtom (lexemes.map Lexeme.token) before ∧ Left after fault := by
  cases hskip : skip false source with
  | nil =>
      rw [scan_of_skip_nil hskip] at h
      cases h
      obtain ⟨gap, after, hsource, hgap, hleft⟩ := lastGap_iff.mp (lastGap_of_skip hskip)
      exact ⟨gap, after, hsource, .nil hgap, hleft⟩
  | cons c rest =>
      obtain ⟨hstart, gap, hgap, hsource⟩ := exists_gap_of_skip hskip
      cases htoken : scanToken c rest with
      | error fault =>
          rw [scan_of_fault hskip htoken] at h
          cases h
          exact ⟨gap, c :: rest, hsource, .nil hgap, .fault hstart htoken⟩
      | ok pair =>
          obtain ⟨token, after⟩ := pair
          rw [scan_of_token hskip htoken] at h
          obtain ⟨rfl, rfl⟩ := Prod.mk.inj h
          obtain ⟨written, hwritten, hrest, hafter⟩ := written_of_scanToken hstart htoken
          have hshorter : after.length < source.length := by
            have hafter := length_of_scanToken htoken
            rw [hsource, List.length_append, List.length_cons]
            omega
          -- The flag for the rest is whether this token is an atom, which ends at a delimiter.
          obtain ⟨before, left, hparts, hbefore, hleft⟩ :=
            exists_spelledTo_of_scan token.isAtom after rfl hafter
          -- An atom right after an atom would have been part of it.
          have happart : afterAtom = true → token.isAtom = true → gap ≠ [] := by
            rintro hflag hatom rfl
            obtain ⟨d, name, rfl, hd⟩ := hwritten.atomChar hatom
            obtain ⟨rfl, -⟩ := List.cons.inj hrest
            have hdelimiter := hends hflag c rest hsource
            rw [not_isDelimiter_iff.mpr hd] at hdelimiter
            cases hdelimiter
          refine ⟨gap ++ written ++ before, left, ?_, ?_, hleft⟩
          · rw [hsource, hrest, hparts]
            simp only [List.append_assoc]
          · exact .cons hgap happart hwritten hbefore
termination_by source.length

/-- Where a token is at fault an atom has ended, and nothing is scanned. -/
theorem Left.atomEnds (h : Left after fault) : AtomEnds after := by
  intro c rest hcons
  cases h with
  | nothing => cases hcons
  | comment =>
      cases hcons
      rfl
  | fault _ hfault =>
      cases hcons
      unfold scanToken at hfault
      split_ifs at hfault with hopen hclose hquote hdelimiter
      · rw [hquote]
        rfl
      · exact hdelimiter

theorem Left.scan_eq (h : Left after fault) : scan after = ([], fault) := by
  cases h with
  | nothing => exact scan_of_skip_nil rfl
  | comment htext =>
      refine scan_of_skip_nil ?_
      rw [skip, isSeparator_semicolon]
      exact skip_comment htext
  | fault hstart hfault => exact scan_of_fault (skip_of_tokenStart hstart _) hfault

theorem Gap.atomEnds_append (hgap : Gap gap) (hafter : AtomEnds after) :
    AtomEnds (gap ++ after) := by
  intro c rest hcons
  cases hgap with
  | nil => exact hafter c rest hcons
  | separator hc _ =>
      cases hcons
      have hblank := Text.isBlank_of_isSeparator (isSeparator_iff.mpr hc)
      simp [isDelimiter, hblank]
  | comment =>
      cases hcons
      rfl

theorem Written.atomEnds (h : Written token source) (hatom : token.isAtom = false)
    (after : List Char) : AtomEnds (source ++ after) := by
  intro c rest hcons
  cases h with
  | atom => cases hatom
  | _ =>
      cases hcons
      rfl

/-- What is spelled after an atom ends the atom. -/
theorem SpelledTo.atomEnds (h : SpelledTo true tokens before) (hafter : AtomEnds after) :
    AtomEnds (before ++ after) := by
  cases h with
  | nil hgap => exact hgap.atomEnds_append hafter
  | @cons _ token _ gap written rest hgap happart hwritten _ =>
      rw [List.append_assoc, List.append_assoc]
      cases hatom : token.isAtom with
      | false => exact hgap.atomEnds_append (hwritten.atomEnds hatom _)
      | true =>
          -- The gap keeps the two atoms apart, so the delimiter is its first character.
          obtain ⟨d, gap', rfl⟩ := List.exists_cons_of_ne_nil (happart rfl hatom)
          intro c later hcons
          cases hcons
          have hends : AtomEnds (d :: gap' ++ []) := hgap.atomEnds_append nofun
          exact hends d gap' (List.append_nil _)

theorem scan_gap (hgap : Gap gap) (after : List Char) : scan (gap ++ after) = scan after := by
  rw [scan, scan, skip_gap hgap]

/-- A token is scanned as it, whatever follows it, but an atom has to end. -/
theorem scan_of_written {written : List Char} (hwritten : Written token written)
    (hends : token.isAtom = true → AtomEnds after) :
    scan (written ++ after) = (⟨token, written ++ after⟩ :: (scan after).1, (scan after).2) := by
  obtain ⟨c, later, hcons, hstart, htoken⟩ := scanToken_written hwritten hends
  rw [hcons]
  exact scan_of_token (skip_of_tokenStart hstart later) htoken

/-- What is spelled up to a place is scanned into its tokens, whatever stands after the place, but
an atom has to end there. -/
theorem scan_of_spelledTo (h : SpelledTo afterAtom tokens before) (hafter : AtomEnds after) :
    ∃ lexemes, lexemes.map Lexeme.token = tokens ∧
      scan (before ++ after) = (lexemes ++ (scan after).1, (scan after).2) := by
  induction h with
  | nil hgap => exact ⟨[], rfl, scan_gap hgap after⟩
  | @cons _ token tokens gap written rest hgap _ hwritten hrest ih =>
      obtain ⟨lexemes, htokens, hscan⟩ := ih
      have hends : token.isAtom = true → AtomEnds (rest ++ after) := by
        intro hatom
        rw [hatom] at hrest
        exact hrest.atomEnds hafter
      refine ⟨⟨token, written ++ (rest ++ after)⟩ :: lexemes, ?_, ?_⟩
      · rw [List.map_cons, htokens]
      · rw [List.append_assoc, List.append_assoc, scan_gap hgap, scan_of_written hwritten hends,
          hscan]
        rfl

/-- Scanning finds tokens without a fault exactly when the source spells them. -/
theorem scan_iff_spelled :
    (∃ lexemes, scan source = (lexemes, none) ∧ lexemes.map Lexeme.token = tokens) ↔
      Spelled false tokens source := by
  rw [spelled_iff]
  constructor
  · rintro ⟨lexemes, hscan, rfl⟩
    exact exists_spelledTo_of_scan false source hscan nofun
  · rintro ⟨before, after, rfl, hbefore, hleft⟩
    obtain ⟨lexemes, htokens, hscan⟩ := scan_of_spelledTo hbefore hleft.atomEnds
    refine ⟨lexemes, ?_, htokens⟩
    rw [hscan, hleft.scan_eq, List.append_nil]

/-! ## Sources put together -/

/-- A gap in front.  What stands before it can be an atom if the gap is not empty, or else if an
atom could stand there without it. -/
theorem SpelledTo.gap_append {afterAtom' : Bool} (hgap : Gap gap)
    (hflag : afterAtom' = true → gap = [] → afterAtom = true)
    (h : SpelledTo afterAtom tokens source) : SpelledTo afterAtom' tokens (gap ++ source) := by
  cases h with
  | nil hlast => exact .nil (hgap.append hlast)
  | cons hfirst happart hwritten hrest =>
      rw [List.append_assoc, ← List.append_assoc, ← List.append_assoc]
      refine .cons (hgap.append hfirst) (fun hbefore hatom hnil => ?_) hwritten hrest
      obtain ⟨hnone, hnone'⟩ := List.append_eq_nil_iff.mp hnil
      exact happart (hflag hbefore hnone) hatom hnone'

/-- A parenthesis or a literal can stand right after any token. -/
theorem SpelledTo.mark_cons {written : List Char} (hwritten : Written token written)
    (hmark : token.isAtom = false) (h : SpelledTo false tokens source) :
    SpelledTo true (token :: tokens) (written ++ source) := by
  have hapart : true = true → token.isAtom = true → ([] : List Char) ≠ [] := by
    intro _ hatom
    rw [hmark] at hatom
    cases hatom
  rw [← hmark] at h
  exact .cons .nil hapart hwritten h

theorem SpelledTo.mark {written : List Char} (hwritten : Written token written)
    (hmark : token.isAtom = false) : SpelledTo true [token] written := by
  have halone : SpelledTo true [token] (written ++ []) := .mark_cons hwritten hmark (.nil .nil)
  rw [List.append_nil] at halone
  exact halone

/-- Tokens can follow each other when the later ones are spelled so that they can stand right after
an atom. -/
theorem SpelledTo.append (h : SpelledTo afterAtom tokens before)
    (hlater : SpelledTo true later source) :
    SpelledTo afterAtom (tokens ++ later) (before ++ source) := by
  induction h with
  | nil hgap => exact hlater.gap_append hgap fun _ _ => rfl
  | cons hgap happart hwritten _ ih =>
      rw [List.append_assoc]
      exact .cons hgap happart hwritten ih

/-- A source is divided at each of its tokens. -/
theorem SpelledTo.exists_of_append (h : SpelledTo afterAtom (tokens ++ token :: later) source) :
    ∃ before written after, source = before ++ written ++ after ∧
      SpelledTo afterAtom tokens before ∧ Written token written ∧
      SpelledTo token.isAtom later after := by
  induction tokens generalizing afterAtom source with
  | nil =>
      cases h with
      | @cons _ _ _ gap written rest hgap _ hwritten hrest =>
          exact ⟨gap, written, rest, rfl, .nil hgap, hwritten, hrest⟩
  | cons first tokens ih =>
      cases h with
      | @cons _ _ _ gap first rest hgap happart hfirst hrest =>
          obtain ⟨before, written, after, rfl, hbefore, hwritten, hafter⟩ := ih hrest
          refine ⟨_, written, after, ?_, .cons hgap happart hfirst hbefore, hwritten, hafter⟩
          simp only [List.append_assoc]

end Source
end LispFront
