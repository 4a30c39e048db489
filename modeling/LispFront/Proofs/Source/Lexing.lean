import LispFront.Proofs.Source.Grammar
import Mathlib.Data.List.TakeWhile
import Mathlib.Tactic.SplitIfs

/-!
# Gaps, literals and tokens

There is a pair of lemmas for the scanner of a gap, of a literal and of a token: what it takes is
written as the grammar says, and whatever the grammar writes it takes, no matter what follows.  An
atom is the one token for which it does matter: it takes all characters up to the next delimiter,
and so what follows an atom has to begin with one.
-/

namespace LispFront
namespace Source

/-! ## Gaps -/

theorem isSeparator_iff {c : Char} :
    Text.isSeparator c = true ↔ c ∈ [' ', '\t', '\r', '\n'] := by
  simp [Text.isSeparator, or_assoc]

theorem isSeparator_semicolon : Text.isSeparator ';' = false := by decide

/-- A gap is skipped, whatever follows it. -/
theorem skip_gap {gap : List Char} (hgap : Gap gap) (rest : List Char) :
    skip false (gap ++ rest) = skip false rest := by
  induction hgap with
  | nil => rfl
  | separator hc _ ih =>
      rw [List.cons_append, skip, if_pos (isSeparator_iff.mpr hc), ih]
  | @comment text gap htext _ ih =>
      -- From inside the comment its line feed is the first that is met.
      have htext' (text : List Char) (hnone : '\n' ∉ text) :
          skip true (text ++ '\n' :: (gap ++ rest)) = skip false (gap ++ rest) := by
        induction text with
        | nil => rfl
        | cons c text ihtext =>
            rw [List.mem_cons, not_or] at hnone
            rw [List.cons_append, skip, bne_iff_ne.mpr (Ne.symm hnone.1)]
            exact ihtext hnone.2
      rw [List.cons_append, List.append_assoc, List.cons_append, skip, isSeparator_semicolon]
      exact (htext' text htext).trans ih

/-- A comment up to the end of the source is skipped. -/
theorem skip_comment {text : List Char} (htext : '\n' ∉ text) : skip true text = [] := by
  induction text with
  | nil => rfl
  | cons c text ih =>
      rw [List.mem_cons, not_or] at htext
      rw [skip, bne_iff_ne.mpr (Ne.symm htext.1)]
      exact ih htext.2

/-- Where a token can begin: a character that starts no gap. -/
structure TokenStart (c : Char) : Prop where
  separator : Text.isSeparator c = false
  comment : c ≠ ';'

theorem skip_of_tokenStart {c : Char} (hc : TokenStart c) (rest : List Char) :
    skip false (c :: rest) = c :: rest := by
  have hcomment : (c == ';') = false := by simpa using hc.comment
  rw [skip, hc.separator, hcomment]
  rfl

/-- What is skipped before a token: a gap, and from inside a comment first the rest of that. -/
def GapFrom : (inComment : Bool) → List Char → Prop
  | false, skipped => Gap skipped
  | true, skipped => ∃ text gap, '\n' ∉ text ∧ Gap gap ∧ skipped = text ++ '\n' :: gap

/-- What is skipped at the end of a source. -/
def LastGapFrom : (inComment : Bool) → List Char → Prop
  | false, skipped => LastGap skipped
  | true, skipped => '\n' ∉ skipped ∨
      ∃ text gap, '\n' ∉ text ∧ LastGap gap ∧ skipped = text ++ '\n' :: gap

theorem not_mem_cons_of_ne {c : Char} {text : List Char} (hc : c ≠ '\n') (htext : '\n' ∉ text) :
    '\n' ∉ c :: text := by
  rw [List.mem_cons, not_or]
  exact ⟨Ne.symm hc, htext⟩

/-- Before a token a gap is skipped. -/
theorem exists_gap_of_skip {inComment : Bool} {source rest : List Char} {c : Char}
    (h : skip inComment source = c :: rest) :
    TokenStart c ∧ ∃ gap, GapFrom inComment gap ∧ source = gap ++ c :: rest := by
  induction source generalizing inComment with
  | nil => cases inComment <;> cases h
  | cons d source ih =>
      cases inComment with
      | false =>
          rw [skip] at h
          split at h
          · rename_i hseparator
            obtain ⟨hstart, gap, hgap, rfl⟩ := ih h
            exact ⟨hstart, d :: gap, .separator (isSeparator_iff.mp hseparator) hgap, rfl⟩
          · rename_i hseparator
            split at h
            · rename_i hcomment
              obtain rfl : d = ';' := eq_of_beq hcomment
              obtain ⟨hstart, _, ⟨text, gap, htext, hgap, rfl⟩, rfl⟩ := ih h
              exact ⟨hstart, _, .comment htext hgap, rfl⟩
            · rename_i hcomment
              cases h
              refine ⟨⟨Bool.eq_false_iff.mpr hseparator, ?_⟩, [], .nil, rfl⟩
              rintro rfl
              exact hcomment rfl
      | true =>
          rw [skip] at h
          by_cases hline : d = '\n'
          · subst hline
            obtain ⟨hstart, gap, hgap, rfl⟩ := ih h
            exact ⟨hstart, '\n' :: gap, ⟨[], gap, List.not_mem_nil, hgap, rfl⟩, rfl⟩
          · rw [bne_iff_ne.mpr hline] at h
            obtain ⟨hstart, _, ⟨text, gap, htext, hgap, rfl⟩, rfl⟩ := ih h
            exact ⟨hstart, _, ⟨d :: text, gap, not_mem_cons_of_ne hline htext, hgap, rfl⟩, rfl⟩

theorem LastGap.separator_cons {c : Char} {gap : List Char} (hc : c ∈ [' ', '\t', '\r', '\n'])
    (hgap : LastGap gap) : LastGap (c :: gap) := by
  cases hgap with
  | gap hgap => exact .gap (.separator hc hgap)
  | comment hgap htext => exact .comment (.separator hc hgap) htext

theorem LastGap.comment_append {text gap : List Char} (htext : '\n' ∉ text)
    (hgap : LastGap gap) : LastGap (';' :: (text ++ '\n' :: gap)) := by
  cases hgap with
  | gap hgap => exact .gap (.comment htext hgap)
  | @comment gap last hgap hlast =>
      have hboth := LastGap.comment (.comment htext hgap) hlast
      simpa using hboth

/-- Where nothing is left, a last gap was skipped. -/
theorem lastGap_of_skip {inComment : Bool} {source : List Char} (h : skip inComment source = []) :
    LastGapFrom inComment source := by
  induction source generalizing inComment with
  | nil =>
      cases inComment with
      | false => exact .gap .nil
      | true => exact .inl List.not_mem_nil
  | cons d source ih =>
      cases inComment with
      | false =>
          rw [skip] at h
          split at h
          · rename_i hseparator
            exact (ih h).separator_cons (isSeparator_iff.mp hseparator)
          · split at h
            · rename_i hcomment
              obtain rfl : d = ';' := eq_of_beq hcomment
              rcases ih h with hall | ⟨text, gap, htext, hgap, rfl⟩
              · exact .comment .nil hall
              · exact hgap.comment_append htext
            · cases h
      | true =>
          rw [skip] at h
          by_cases hline : d = '\n'
          · subst hline
            exact .inr ⟨[], source, List.not_mem_nil, ih h, rfl⟩
          · rw [bne_iff_ne.mpr hline] at h
            rcases ih h with hall | ⟨text, gap, htext, hgap, rfl⟩
            · exact .inl (not_mem_cons_of_ne hline hall)
            · exact .inr ⟨d :: text, gap, not_mem_cons_of_ne hline htext, hgap, rfl⟩

/-! ## String literals -/

theorem unescape?_eq_some_iff {letter c : Char} :
    unescape? letter = some c ↔ (letter, c) ∈ escapes := by
  unfold unescape? escapes
  simp only [List.mem_cons, Prod.mk.injEq, List.not_mem_nil, or_false, beq_iff_eq]
  constructor
  · intro h
    split_ifs at h with hquote hslash hline htab
    all_goals
      cases h
      simp [*]
  · rintro (⟨rfl, rfl⟩ | ⟨rfl, rfl⟩ | ⟨rfl, rfl⟩ | ⟨rfl, rfl⟩)
    all_goals rfl

/-- Characters of a literal are read as what they stand for, whatever follows them. -/
theorem scanString_append {text body : List Char} (hbody : Literal text body)
    (start rest : List Char) : scanString start (body ++ rest) =
      (scanString start rest).map (Prod.map (text ++ ·) id) := by
  induction hbody with
  | nil =>
      rw [List.nil_append]
      cases scanString start rest <;> rfl
  | plain hquote hslash _ ih =>
      rw [List.cons_append, scanString.eq_def]
      simp only [if_neg hquote, if_neg hslash, ih]
      cases scanString start rest <;> rfl
  | escape hletter _ ih =>
      rw [List.cons_append, List.cons_append, scanString.eq_def]
      simp only [unescape?_eq_some_iff.mpr hletter, ih]
      cases scanString start rest <;> rfl

/-- A literal is read as its text, whatever follows it. -/
theorem scanString_literal {text body : List Char} (hbody : Literal text body)
    (start after : List Char) : scanString start (body ++ '"' :: after) = .ok (text, after) := by
  rw [scanString_append hbody, scanString.eq_def]
  simp only [if_true, Except.map, Prod.map, List.append_nil, id]

theorem map_cons_eq_ok {c : Char} {result : Except Fault (List Char × List Char)}
    {text after : List Char} (h : result.map (Prod.map (c :: ·) id) = .ok (text, after)) :
    ∃ later, text = c :: later ∧ result = .ok (later, after) := by
  cases result with
  | error fault => cases h
  | ok pair =>
      obtain ⟨later, after'⟩ := pair
      cases h
      exact ⟨later, rfl, rfl⟩

/-- What is read as a text is a literal of it. -/
theorem exists_literal_of_scanString {start source text after : List Char}
    (h : scanString start source = .ok (text, after)) :
    ∃ body, Literal text body ∧ source = body ++ '"' :: after := by
  -- The three cases with a fault give no text; the others take one, two or one character.
  fun_induction scanString start source generalizing text after with
  | case1 => cases h
  | case2 rest =>
      cases h
      exact ⟨[], .nil, rfl⟩
  | case3 => cases h
  | case4 letter rest resolved hletter _ ih =>
      obtain ⟨later, rfl, hlater⟩ := map_cons_eq_ok h
      obtain ⟨body, hbody, rfl⟩ := ih hlater
      exact ⟨'\\' :: letter :: body, .escape (unescape?_eq_some_iff.mp hletter) hbody, rfl⟩
  | case5 => cases h
  | case6 c rest hquote hslash ih =>
      obtain ⟨later, rfl, hlater⟩ := map_cons_eq_ok h
      obtain ⟨body, hbody, rfl⟩ := ih hlater
      exact ⟨c :: body, .plain hquote hslash hbody, rfl⟩

/-! ## One token -/

theorem not_isDelimiter_iff {c : Char} : isDelimiter c = false ↔ AtomChar c := by
  unfold isDelimiter
  constructor
  · intro h
    simp only [Bool.or_eq_false_iff, beq_eq_false_iff_ne] at h
    obtain ⟨⟨⟨⟨hblank, hopen⟩, hclose⟩, hquote⟩, hcomment⟩ := h
    exact ⟨hblank, by simp [*]⟩
  · rintro ⟨hblank, hmark⟩
    simp only [List.mem_cons, List.not_mem_nil, or_false, not_or] at hmark
    simp [*]

theorem atomName_iff {name : List Char} :
    AtomName name ↔ name ≠ [] ∧ (name.all fun c => !isDelimiter c) = true := by
  have hchars : (name.all fun c => !isDelimiter c) = true ↔ ∀ c ∈ name, AtomChar c := by
    simp only [List.all_eq_true, Bool.not_eq_true', not_isDelimiter_iff]
  rw [hchars]
  exact ⟨fun h => ⟨h.nonempty, h.chars⟩, fun h => ⟨h.1, h.2⟩⟩

instance (name : List Char) : Decidable (AtomName name) := decidable_of_iff' _ atomName_iff

/-- Whether an atom that ends here has ended: nothing is left, or a delimiter. -/
def AtomEnds (source : List Char) : Prop := ∀ c rest, source = c :: rest → isDelimiter c = true

theorem written_atom {name : List Char} (hname : AtomName name) :
    Written (.atom (String.ofList name)) name := by
  have hlist : (String.ofList name).toList = name := String.toList_ofList
  have hwritten : Written (.atom (String.ofList name)) (String.ofList name).toList := by
    refine .atom ?_
    rw [hlist]
    exact hname
  rw [hlist] at hwritten
  exact hwritten

/-- What is read as a token is written as it, and an atom is followed by its end. -/
theorem written_of_scanToken {c : Char} {rest after : List Char} {token : Token}
    (hstart : TokenStart c) (h : scanToken c rest = .ok (token, after)) :
    ∃ written, Written token written ∧ c :: rest = written ++ after ∧
      (token.isAtom = true → AtomEnds after) := by
  unfold scanToken at h
  split_ifs at h with hopen hclose hquote hdelimiter
  · cases h
    subst hopen
    exact ⟨_, .openList, rfl, nofun⟩
  · cases h
    subst hclose
    exact ⟨_, .closeList, rfl, nofun⟩
  · subst hquote
    cases hscan : scanString ('"' :: rest) rest with
    | error fault =>
        rw [hscan] at h
        cases h
    | ok pair =>
        obtain ⟨text, after'⟩ := pair
        rw [hscan] at h
        cases h
        obtain ⟨body, hbody, hrest⟩ := exists_literal_of_scanString hscan
        refine ⟨'"' :: (body ++ ['"']), .string ?_, ?_, nofun⟩
        · rw [String.toList_ofList]
          exact hbody
        · rw [hrest]
          simp
  · cases h
    have hname : AtomName (c :: rest.takeWhile (!isDelimiter ·)) := by
      refine ⟨List.cons_ne_nil _ _, fun d hd => not_isDelimiter_iff.mp ?_⟩
      rcases List.mem_cons.mp hd with rfl | htaken
      · exact Bool.eq_false_iff.mpr hdelimiter
      · simpa using List.mem_takeWhile_imp htaken
    refine ⟨_, written_atom hname, ?_, fun _ d later hlater => ?_⟩
    · rw [List.cons_append, List.takeWhile_append_dropWhile]
    · have hne : rest.dropWhile (!isDelimiter ·) ≠ [] := by simp [hlater]
      have hhead := List.head_dropWhile_not (fun c => !isDelimiter c) hne
      simpa [hlater] using hhead

/-- A character of an atom starts a token, and none of the others. -/
theorem AtomChar.tokenStart {c : Char} (hc : AtomChar c) : TokenStart c where
  separator := by
    cases hseparator : Text.isSeparator c with
    | false => rfl
    | true => exact absurd hc.blank (by simp [Text.isBlank_of_isSeparator hseparator])
  comment := by
    rintro rfl
    exact absurd hc.mark (by decide)

theorem takeWhile_append_of_ends {p : Char → Bool} {name after : List Char}
    (hname : ∀ c ∈ name, p c = true) (hends : ∀ c rest, after = c :: rest → p c = false) :
    (name ++ after).takeWhile p = name ∧ (name ++ after).dropWhile p = after := by
  induction name with
  | nil =>
      cases after with
      | nil => exact ⟨rfl, rfl⟩
      | cons c rest =>
          have hc := hends c rest rfl
          exact ⟨by simp [hc], by simp [hc]⟩
  | cons c name ih =>
      have hc := hname c List.mem_cons_self
      obtain ⟨htake, hdrop⟩ := ih fun d hd => hname d (List.mem_cons_of_mem _ hd)
      rw [List.cons_append, List.takeWhile_cons_of_pos hc, List.dropWhile_cons_of_pos hc, htake]
      exact ⟨rfl, hdrop⟩

/-- An atom takes all of its name and nothing more. -/
theorem scanToken_atom {c : Char} {name after : List Char} (hname : AtomName (c :: name))
    (hends : AtomEnds after) :
    scanToken c (name ++ after) = .ok (.atom (String.ofList (c :: name)), after) := by
  have hc : AtomChar c := hname.chars c List.mem_cons_self
  have hmark := hc.mark
  simp only [List.mem_cons, List.not_mem_nil, or_false, not_or] at hmark
  obtain ⟨hopen, hclose, hquote, -⟩ := hmark
  have hdelimiter : ¬ isDelimiter c = true := Bool.eq_false_iff.mp (not_isDelimiter_iff.mpr hc)
  have hchars : ∀ d ∈ name, (!isDelimiter d) = true := by
    intro d hd
    rw [not_isDelimiter_iff.mpr (hname.chars d (List.mem_cons_of_mem _ hd))]
    rfl
  have hstop : ∀ d rest, after = d :: rest → (!isDelimiter d) = false := by
    intro d rest hd
    rw [hends d rest hd]
    rfl
  obtain ⟨htake, hdrop⟩ := takeWhile_append_of_ends hchars hstop
  unfold scanToken
  rw [if_neg hopen, if_neg hclose, if_neg hquote, if_neg hdelimiter, htake, hdrop]

/-- What is written as a token is read as it, whatever follows it, but an atom has to end. -/
theorem scanToken_written {token : Token} {written : List Char} (hwritten : Written token written)
    {after : List Char} (hends : token.isAtom = true → AtomEnds after) :
    ∃ c rest, written ++ after = c :: rest ∧ TokenStart c ∧
      scanToken c rest = .ok (token, after) := by
  cases hwritten with
  | openList => exact ⟨'(', after, rfl, ⟨by decide, by decide⟩, rfl⟩
  | closeList => exact ⟨')', after, rfl, ⟨by decide, by decide⟩, rfl⟩
  | @string text body hbody =>
      refine ⟨'"', body ++ '"' :: after, by simp, ⟨by decide, by decide⟩, ?_⟩
      unfold scanToken
      rw [if_neg (by decide), if_neg (by decide), if_pos rfl, scanString_literal hbody]
      show Except.ok (Token.string (String.ofList text.toList), after) = _
      rw [String.ofList_toList]
  | @atom name hname =>
      have hofList : String.ofList name.toList = name := String.ofList_toList
      cases hlist : name.toList with
      | nil => exact absurd hlist hname.nonempty
      | cons c rest =>
          rw [hlist] at hname hofList
          refine ⟨c, rest ++ after, rfl, (hname.chars c List.mem_cons_self).tokenStart, ?_⟩
          rw [scanToken_atom hname (hends rfl), hofList]

theorem Written.atomChar {token : Token} {written : List Char} (h : Written token written)
    (hatom : token.isAtom = true) : ∃ c name, written = c :: name ∧ AtomChar c := by
  cases h with
  | @atom name hname =>
      obtain ⟨c, rest, hlist⟩ := List.exists_cons_of_ne_nil hname.nonempty
      refine ⟨c, rest, hlist, hname.chars c ?_⟩
      rw [hlist]
      exact List.mem_cons_self
  | _ => cases hatom

/-! ## One step of scanning -/

theorem scan_of_skip_nil {source : List Char} (hskip : skip false source = []) :
    scan source = ([], none) := by
  rw [scan]
  split
  · rfl
  · rename_i hcons
    rw [hskip] at hcons
    cases hcons

theorem scan_of_token {source rest after : List Char} {c : Char} {token : Token}
    (hskip : skip false source = c :: rest) (htoken : scanToken c rest = .ok (token, after)) :
    scan source = (⟨token, c :: rest⟩ :: (scan after).1, (scan after).2) := by
  rw [scan]
  split
  · rename_i hnil
    rw [hskip] at hnil
    cases hnil
  · rename_i hcons
    rw [hskip] at hcons
    cases hcons
    split
    · rename_i herror
      rw [htoken] at herror
      cases herror
    · rename_i hok
      rw [htoken] at hok
      cases hok
      rfl

theorem scan_of_fault {source rest : List Char} {c : Char} {fault : Fault}
    (hskip : skip false source = c :: rest) (htoken : scanToken c rest = .error fault) :
    scan source = ([], some fault) := by
  rw [scan]
  split
  · rename_i hnil
    rw [hskip] at hnil
    cases hnil
  · rename_i hcons
    rw [hskip] at hcons
    cases hcons
    split
    · rename_i herror
      rw [htoken] at herror
      cases herror
      rfl
    · rename_i hok
      rw [htoken] at hok
      cases hok

end Source
end LispFront
