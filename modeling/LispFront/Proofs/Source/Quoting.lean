import LispFront.Proofs.Ast.ReadBack

/-!
# Printed trees are read back

Texts are quoted with more escapes than literals have: a carriage return becomes `\r`, and a
character that leaves no mark is written by its code point.  A string that needs such an escape
(`Text.EscapedOtherwise`, by classes of characters `Text.escapedOtherwise_iff_class`) does not come
back.  Everything else does: the written form of a list is one of its spellings, because every
element is followed by a space.

`EscapesIn` tells the two kinds of trees apart.  Without such a string in it, a tree is written as a
spelling of itself (`Datum.writes_toText`).  Otherwise the first of them is an unknown escape, and
up to there the tree is spelled (`Datum.exists_faultAt`); as no more is needed than a place where
any forest could stand (`Source.Roomy`), this goes down into lists and along their elements.
-/

namespace LispFront

open Source

/-! ## Characters -/

namespace Text

/-- Whether quoting escapes a character otherwise than literals do. -/
def EscapedOtherwise (c : Char) : Prop :=
  quoteChar c ≠ [c] ∧ ∀ letter ∈ ['"', '\\', 'n', 't'], quoteChar c ≠ ['\\', letter]

instance (c : Char) : Decidable (EscapedOtherwise c) :=
  inferInstanceAs (Decidable (quoteChar c ≠ [c] ∧
    ∀ letter ∈ ['"', '\\', 'n', 't'], quoteChar c ≠ ['\\', letter]))

/-- A character is quoted as a literal of it, or with an escape that no literal has. -/
theorem literal_quoteChar_or (c : Char) : Literal [c] (quoteChar c) ∨
    ∃ letter rest, quoteChar c = '\\' :: letter :: rest ∧ letter ∉ escapes.map Prod.fst := by
  unfold quoteChar
  cases hshort : shortEscape? c with
  | some letter =>
      unfold shortEscape? at hshort
      split_ifs at hshort with hnul htab hreturn hline hquote hslash
      all_goals
        cases hshort
        simp only [beq_iff_eq] at *
        subst c
        first
          | exact .inl (.escape (by decide) .nil)
          | exact .inr ⟨_, _, rfl, by decide⟩
  | none =>
      by_cases hstands : standsInQuotes c = true
      · have hplain : c ≠ '"' ∧ c ≠ '\\' := by
          constructor
          · rintro rfl
            cases hshort
          · rintro rfl
            cases hshort
        refine .inl ?_
        simp only [hstands, if_true]
        exact .plain hplain.1 hplain.2 .nil
      · refine .inr ⟨'u', ['{'] ++ Nat.toDigits 16 c.toNat ++ ['}'], ?_, by decide⟩
        simp only [hstands]
        rfl

/-- The escapes that do not come back are those that no literal has. -/
theorem escapedOtherwise_iff {c : Char} : EscapedOtherwise c ↔
    ∃ letter rest, quoteChar c = '\\' :: letter :: rest ∧ letter ∉ escapes.map Prod.fst := by
  constructor
  · rintro ⟨hplain, hescaped⟩
    rcases literal_quoteChar_or c with hliteral | hother
    · generalize hquoted : quoteChar c = body at hliteral hplain hescaped
      cases hliteral with
      | plain _ _ hrest =>
          cases hrest
          exact absurd rfl hplain
      | escape hletter hrest =>
          cases hrest
          exact absurd rfl (hescaped _ (List.mem_map_of_mem (f := Prod.fst) hletter))
    · exact hother
  · rintro ⟨letter, rest, hquoted, hletter⟩
    rw [EscapedOtherwise, hquoted]
    refine ⟨by simp, fun known hknown heq => hletter ?_⟩
    obtain ⟨rfl, -⟩ := List.cons.inj (List.cons.inj heq).2
    exact hknown

/-- A short escape comes back exactly when literals have its letter. -/
theorem escapedOtherwise_iff_of_short {c letter : Char} (hshort : shortEscape? c = some letter) :
    EscapedOtherwise c ↔ letter ∉ escapes.map Prod.fst := by
  have hquoted : quoteChar c = ['\\', letter] := by rw [quoteChar, hshort]
  rw [escapedOtherwise_iff, hquoted]
  constructor
  · rintro ⟨other, rest, heq, hother⟩
    cases heq
    exact hother
  · intro hletter
    exact ⟨letter, [], rfl, hletter⟩

/-- A table that begins after the characters of ASCII holds none of them. -/
theorem isWithin_eq_false_of_lt {ranges : List CodeRange} (h : ∀ r ∈ ranges, 0x7F ≤ r.first)
    {c : Char} (hc : c.toNat < 0x7F) : isWithin ranges c = false := by
  rw [Bool.eq_false_iff, ne_eq, isWithin_iff]
  rintro ⟨r, hr, hfirst, -⟩
  have hlow := h r hr
  omega

/-- What is not printable: controls, format and private-use characters, separators but the space,
and code points without a character. -/
theorem isPrintable_eq_false_iff {c : Char} : isPrintable c = false ↔
    isControl c = true ∨ isWithin formatCharacters c = true ∨ isWithin wideSeparators c = true ∨
      isWithin privateUse c = true ∨ isUnassigned c = true := by
  unfold isPrintable isUnassigned
  by_cases hc : c.toNat < 0x7F
  · have htables : ∀ ranges ∈ [formatCharacters, wideSeparators, privateUse, unassigned],
        isWithin ranges c = false := by
      refine fun ranges hranges => isWithin_eq_false_of_lt ?_ hc
      revert ranges
      decide +kernel
    simp only [List.forall_mem_cons] at htables
    obtain ⟨hformat, hseparator, hprivate, hunassigned, -⟩ := htables
    rw [if_pos hc, hformat, hseparator, hprivate, hunassigned]
    simp only [isControl, decide_eq_false_iff_not, Bool.or_eq_true, Bool.and_eq_true,
      decide_eq_true_eq, Bool.false_eq_true, or_false]
    omega
  · rw [if_neg hc, Bool.not_eq_false']
    simp only [Bool.or_eq_true, or_assoc]

/-- Below the delete character, all but the controls stand between the quotes. -/
theorem standsInQuotes_of_lt {c : Char} (hc : c.toNat < 0x7F) :
    standsInQuotes c = decide (0x20 ≤ c.toNat) := by
  have hignorable : isIgnorable c = false :=
    isWithin_eq_false_of_lt (by decide) hc
  have hextender : isGraphemeExtender c = false := by
    have hlow : ¬ 0x300 ≤ c.toNat := by omega
    simp only [isGraphemeExtender, hlow, decide_false, Bool.false_and]
  simp [standsInQuotes, isPrintable, hc, hignorable, hextender]

/-- What is escaped otherwise does not stand between quotes as itself; only the line feed and the
tab, which do not either, have an escape that literals have too. -/
theorem escapedOtherwise_iff_not_standsInQuotes {c : Char} :
    EscapedOtherwise c ↔ c ≠ '\n' ∧ c ≠ '\t' ∧ standsInQuotes c = false := by
  by_cases hshort : c ∈ ['\x00', '\t', '\r', '\n', '"', '\\']
  · simp only [List.mem_cons, List.not_mem_nil, or_false] at hshort
    rcases hshort with rfl | rfl | rfl | rfl | rfl | rfl
    all_goals
      rw [escapedOtherwise_iff_of_short rfl, standsInQuotes_of_lt (by decide)]
      decide
  · have hquoted : quoteChar c = if standsInQuotes c then [c] else codePointEscape c := by
      simp only [List.mem_cons, List.not_mem_nil, or_false, not_or] at hshort
      simp [quoteChar, shortEscape?, hshort]
    cases hstands : standsInQuotes c with
    | true =>
        rw [hstands, if_pos rfl] at hquoted
        exact iff_of_false (fun h => h.1 hquoted) (fun h => Bool.noConfusion h.2.2)
    | false =>
        rw [hstands, if_neg Bool.false_ne_true] at hquoted
        refine iff_of_true (escapedOtherwise_iff.mpr ⟨'u', _, hquoted, by decide⟩) ⟨?_, ?_, rfl⟩
        · rintro rfl
          simp at hshort
        · rintro rfl
          simp at hshort

/-- The characters that do not come back, by their classes: all controls but the tab and the line
feed, among them the null character and the carriage return; format characters, separators but the
space, private use, and code points without a character; ignorable characters; and the grapheme
extenders but the two sound marks. -/
theorem escapedOtherwise_iff_class {c : Char} : EscapedOtherwise c ↔ c ≠ '\n' ∧ c ≠ '\t' ∧
    (isControl c = true ∨ isWithin formatCharacters c = true ∨ isWithin wideSeparators c = true ∨
      isWithin privateUse c = true ∨ isUnassigned c = true ∨ isIgnorable c = true ∨
      isGraphemeExtender c = true ∧ isHalfwidthSoundMark c = false) := by
  rw [escapedOtherwise_iff_not_standsInQuotes, standsInQuotes]
  simp only [Bool.and_eq_false_iff, Bool.not_eq_false', Bool.or_eq_false_iff,
    isPrintable_eq_false_iff, or_assoc]

theorem literal_quoteChar {c : Char} (hc : ¬ EscapedOtherwise c) : Literal [c] (quoteChar c) :=
  (literal_quoteChar_or c).resolve_right fun h => hc (escapedOtherwise_iff.mpr h)

/-- Texts of characters that come back are literals between their quotes. -/
theorem literal_flatMap_quoteChar {text : List Char} (h : ∀ c ∈ text, ¬ EscapedOtherwise c) :
    Literal text (text.flatMap quoteChar) := by
  induction text with
  | nil => exact .nil
  | cons c text ih =>
      rw [List.flatMap_cons]
      exact (literal_quoteChar (h c List.mem_cons_self)).append
        (ih fun d hd => h d (List.mem_cons_of_mem c hd))

/-- The first character that does not come back is an unknown escape after a literal. -/
theorem exists_unknown_of_flatMap_quoteChar {text : List Char}
    (h : ∃ c ∈ text, EscapedOtherwise c) :
    ∃ before body letter rest, Literal before body ∧ letter ∉ escapes.map Prod.fst ∧
      text.flatMap quoteChar = body ++ '\\' :: letter :: rest := by
  induction text with
  | nil =>
      obtain ⟨c, hc, -⟩ := h
      cases hc
  | cons c text ih =>
      rw [List.flatMap_cons]
      by_cases hc : EscapedOtherwise c
      · obtain ⟨letter, rest, hquoted, hletter⟩ := escapedOtherwise_iff.mp hc
        refine ⟨[], [], letter, rest ++ text.flatMap quoteChar, .nil, hletter, ?_⟩
        rw [hquoted]
        rfl
      · obtain ⟨d, hd, hother⟩ := h
        have hlater : d ∈ text := by
          rcases List.mem_cons.mp hd with rfl | hlater
          · exact absurd hother hc
          · exact hlater
        obtain ⟨before, body, letter, rest, hbody, hletter, hquoted⟩ := ih ⟨d, hlater, hother⟩
        refine ⟨_, _, letter, rest, (literal_quoteChar hc).append hbody, hletter, ?_⟩
        rw [hquoted, List.append_assoc]

theorem toList_quote (text : String) :
    (quote text).toList = '"' :: (text.toList.flatMap quoteChar ++ ['"']) := by
  rw [quote, String.toList_ofList]
  rfl

end Text

/-! ## Trees -/

namespace Datum

mutual

/-- Whether a tree has nothing but lists, strings and symbols, and these are atoms from no
expansion. -/
def Plain : Datum → Prop
  | .symbol s => s.symbol.IsAtom ∧ s.context = none
  | .string _ => True
  | .number _ => False
  | .list ds => AllPlain ds

/-- Whether all trees are plain. -/
def AllPlain : List Datum → Prop
  | [] => True
  | d :: ds => d.Plain ∧ AllPlain ds

end

mutual

/-- The strings in a tree. -/
def strings : Datum → List String
  | .symbol _ => []
  | .string text => [text]
  | .number _ => []
  | .list ds => stringsOf ds

/-- The strings in the trees. -/
def stringsOf : List Datum → List String
  | [] => []
  | d :: ds => d.strings ++ stringsOf ds

end

/-- Whether one of the strings has a character that does not come back. -/
def EscapesIn (texts : List String) : Prop :=
  ∃ text ∈ texts, ∃ c ∈ text.toList, Text.EscapedOtherwise c

theorem escapesIn_append {texts later : List String} :
    EscapesIn (texts ++ later) ↔ EscapesIn texts ∨ EscapesIn later := by
  simp only [EscapesIn, List.mem_append, or_and_right, exists_or]

end Datum

namespace Source

variable {depth : Nat} {ds : List Datum} {before written : List Char}

theorem writes_string {text : String} {body : List Char} (hbody : Literal text.toList body) :
    Writes [.string text] ('"' :: (body ++ ['"'])) := by
  have hspelled : SpelledTo false [.string text] ([] ++ ('"' :: (body ++ ['"'])) ++ []) :=
    .cons .nil nofun (.string hbody) (.nil .nil)
  rw [List.nil_append, List.append_nil] at hspelled
  exact ⟨_, .string .nil, hspelled⟩

/-- A place in `depth` lists where any forest could stand. -/
def Roomy (depth : Nat) (before : List Char) : Prop :=
  ∀ ds written, Writes ds written → OpenAt depth (before ++ written)

theorem roomy_nil : Roomy 0 [] := by
  rintro ds written ⟨tokens, htokens, hspelled⟩
  exact ⟨tokens, .zero htokens, hspelled⟩

theorem Roomy.openAt (h : Roomy depth before) : OpenAt depth before := by
  have hopen := h [] [] writes_nil
  rwa [List.append_nil] at hopen

theorem Roomy.openList (h : Roomy depth before) : Roomy (depth + 1) (before ++ ['(']) := by
  rintro ds written ⟨tokens, htokens, hspelled⟩
  rw [List.append_assoc]
  exact h.openAt.openList htokens hspelled

/-- After a forest and a space there is room again. -/
theorem Roomy.append_space (h : Roomy depth before) (hwritten : Writes ds written) :
    Roomy depth (before ++ (written ++ [' '])) := by
  intro ds' later hlater
  have hspace : Gap [' '] := .separator (by decide) .nil
  have hboth := hwritten.append_gap hspace (List.cons_ne_nil _ _) hlater
  have hopen := h _ _ hboth
  simpa using hopen

end Source

namespace Datum

theorem toList_elementsText_cons (d : Datum) (ds : List Datum) :
    (elementsText (d :: ds)).toList = d.toText.toList ++ ([' '] ++ (elementsText ds).toList) := by
  rw [elementsText, String.toList_append, String.toList_append, List.append_assoc]
  rfl

theorem toList_toText_list (ds : List Datum) :
    (Datum.list ds).toText.toList = '(' :: ((elementsText ds).toList ++ [')']) := by
  rw [toText, String.toList_append, String.toList_append]
  rfl

mutual

/-- A tree whose strings come back is written as a spelling of it. -/
theorem writes_toText : (d : Datum) → d.Plain → ¬ EscapesIn d.strings →
    Writes [d] d.toText.toList
  | .symbol ⟨s, context⟩, hplain, _ => by
      obtain ⟨hatom, rfl⟩ : s.IsAtom ∧ context = none := hplain
      exact writes_atom hatom
  | .string text, _, hnone => by
      rw [toText, Text.toList_quote]
      refine writes_string (Text.literal_flatMap_quoteChar fun c hc hother => hnone ?_)
      exact ⟨text, List.mem_singleton_self text, c, hc, hother⟩
  | .number _, hplain, _ => hplain.elim
  | .list ds, hplain, hnone => by
      rw [toList_toText_list]
      exact (writes_elementsText ds hplain hnone).list

theorem writes_elementsText : (ds : List Datum) → AllPlain ds → ¬ EscapesIn (stringsOf ds) →
    Writes ds (elementsText ds).toList
  | [], _, _ => writes_nil
  | d :: ds, hplain, hnone => by
      obtain ⟨hhead, hrest⟩ := not_or.mp (mt escapesIn_append.mpr hnone)
      rw [toList_elementsText_cons]
      exact (writes_toText d hplain.1 hhead).append_gap (.separator (by decide) .nil)
        (List.cons_ne_nil _ _) (writes_elementsText ds hplain.2 hrest)

end

mutual

/-- A string that does not come back is an unknown escape, wherever there is room for the tree. -/
theorem exists_faultAt : (d : Datum) → d.Plain → EscapesIn d.strings →
    {depth : Nat} → {before : List Char} → Roomy depth before →
      ∃ place rest, before ++ d.toText.toList = place ++ rest ∧
        FaultAt .unknownEscape place rest
  | .symbol _, _, hsome, _, _, _ => by
      obtain ⟨text, htext, -⟩ := hsome
      cases htext
  | .string text, _, hsome, _, before, hroom => by
      obtain ⟨text', htext, hchars⟩ := hsome
      obtain rfl := List.mem_singleton.mp htext
      obtain ⟨_, body, letter, rest, hbody, hletter, hquoted⟩ :=
        Text.exists_unknown_of_flatMap_quoteChar hchars
      refine ⟨before ++ '"' :: body, '\\' :: letter :: (rest ++ ['"']), ?_,
        .unknownEscape hroom.openAt hbody hletter⟩
      rw [toText, Text.toList_quote, hquoted]
      simp
  | .number _, hplain, _, _, _, _ => hplain.elim
  | .list ds, hplain, hsome, _, before, hroom => by
      obtain ⟨place, rest, hsource, hfault⟩ :=
        exists_faultAt_elementsText ds hplain hsome hroom.openList
      refine ⟨place, rest ++ [')'], ?_, hfault.extend (by decide) [')']⟩
      rw [toList_toText_list, ← List.append_assoc place, ← hsource]
      simp

theorem exists_faultAt_elementsText : (ds : List Datum) → AllPlain ds →
    EscapesIn (stringsOf ds) → {depth : Nat} → {before : List Char} → Roomy depth before →
      ∃ place rest, before ++ (elementsText ds).toList = place ++ rest ∧
        FaultAt .unknownEscape place rest
  | [], _, hsome, _, _, _ => by
      obtain ⟨text, htext, -⟩ := hsome
      cases htext
  | d :: ds, hplain, hsome, _, before, hroom => by
      rw [toList_elementsText_cons]
      by_cases hhead : EscapesIn d.strings
      · obtain ⟨place, rest, hsource, hfault⟩ := exists_faultAt d hplain.1 hhead hroom
        refine ⟨place, _, ?_, hfault.extend (by decide) ([' '] ++ (elementsText ds).toList)⟩
        rw [← List.append_assoc, hsource, List.append_assoc]
      · -- The elements after this one begin where there is room again.
        have hwritten := writes_toText d hplain.1 hhead
        obtain ⟨place, rest, hsource, hfault⟩ := exists_faultAt_elementsText ds hplain.2
          ((escapesIn_append.mp hsome).resolve_left hhead) (hroom.append_space hwritten)
        refine ⟨place, rest, ?_, hfault⟩
        rw [← hsource]
        simp

end

end Datum

/-! ## Forests that are read -/

namespace Source

/-- A forest that is written as tokens is plain, if all atoms are named as atoms. -/
theorem Tokens.allPlain {ds : List Datum} {tokens : List Token} (h : Tokens ds tokens)
    (hnamed : ∀ name, .atom name ∈ tokens → AtomName name.toList) : Datum.AllPlain ds := by
  induction h with
  | nil => trivial
  | symbol _ ih =>
      exact ⟨⟨hnamed _ List.mem_cons_self, rfl⟩, ih fun name hname => hnamed name (.tail _ hname)⟩
  | string _ ih => exact ⟨trivial, ih fun name hname => hnamed name (.tail _ hname)⟩
  | list _ _ ihInner ihRest =>
      refine ⟨ihInner fun name hname => ?_, ihRest fun name hname => ?_⟩
      · exact hnamed name (List.mem_append_left _ (.tail _ hname))
      · exact hnamed name (List.mem_append_right _ (.tail _ hname))

theorem Spells.allPlain {ds : List Datum} {source : List Char} (h : Spells ds source) :
    Datum.AllPlain ds := by
  obtain ⟨tokens, htokens, hspelled⟩ := h
  exact htokens.allPlain fun name hname => hspelled.atomName hname

end Source

namespace ObjectSystem

open Datum (AllPlain EscapesIn stringsOf)

variable {sys : ObjectSystem}

/-- The written form of a plain list is read back as one form, which is the list, if all strings in
it come back; the first that does not is an unknown escape.  What is read from a source is plain. -/
theorem read_toText (hsys : sys.registry.Booted) :
    (∀ (h : Heap) (l : ListRef) (ds : List Datum), h.Unfolds (.list l) (.list ds) → AllPlain ds →
      ∃ text, h.toText (.list l) = some (.ok text) ∧ ∀ s,
        ((∃ root s', (sys.read text).runFrom s = some (.ok root, s') ∧
            s'.heap.Unfolds (.list root) (.list [.list ds])) ↔
          ¬ ∃ string ∈ stringsOf ds, ∃ c ∈ string.toList, Text.EscapedOtherwise c) ∧
        ((∃ string ∈ stringsOf ds, ∃ c ∈ string.toList, Text.EscapedOtherwise c) →
          ∃ position kind s', (sys.read text).runFrom s = some (.error (.read position kind), s') ∧
            kind.message = "unknown string escape")) ∧
    ∀ source s root s', (sys.read source).runFrom s = some (.ok root, s') →
      ∃ ds, s'.heap.Unfolds (.list root) (.list ds) ∧ AllPlain ds := by
  refine ⟨fun h l ds hl hplain => ⟨(Datum.list ds).toText, hl.toText_eq, fun s => ?_⟩, ?_⟩
  · have herror : EscapesIn (stringsOf ds) → ∃ position kind s',
        (sys.read (Datum.list ds).toText).runFrom s =
            some (.error (.read position kind), s') ∧
          kind.message = "unknown string escape" := by
      intro hsome
      obtain ⟨place, rest, hsource, hfault⟩ :=
        Datum.exists_faultAt (.list ds) hplain hsome roomy_nil
      obtain ⟨s', hrun⟩ := exists_run_of_faultAt hsys s hsource hfault
      exact ⟨_, _, s', hrun, rfl⟩
    refine ⟨⟨?_, fun hnone => ?_⟩, herror⟩
    · rintro ⟨root, s', hrun, -⟩ hsome
      obtain ⟨position, kind, s'', hrun', -⟩ := herror hsome
      rw [hrun] at hrun'
      cases hrun'
    · obtain ⟨tokens, htokens, hspelled⟩ := Datum.writes_toText (.list ds) hplain hnone
      exact exists_run_of_spells hsys s ⟨tokens, htokens, hspelled.spelled⟩
  · intro source s root s' hrun
    obtain ⟨ds, hspells, hunfolds⟩ := exists_spells_of_run hsys hrun
    exact ⟨ds, hunfolds, hspells.allPlain⟩

/-- The lists of `(a "\t\"" ())`, and a list of a carriage return. -/
def quotedLists : Heap :=
  ⟨#[[.ofSymbol ⟨"a"⟩, .string "\t\"", .list ⟨1⟩], [], [.string "\r"]]⟩

private theorem not_escapedOtherwise_tabQuote :
    ¬ ∃ string ∈ ["\t\""], ∃ c ∈ string.toList, Text.EscapedOtherwise c := by
  rintro ⟨string, hstring, c, hc, -, hescaped⟩
  obtain rfl := List.mem_singleton.mp hstring
  have hc : c = '\t' ∨ c = '"' := by simpa using hc
  rcases hc with rfl | rfl
  · exact hescaped 't' (by decide) rfl
  · exact hescaped '"' (by decide) rfl

/-- A tab and a quote are read back as they were printed, a carriage return is not. -/
theorem read_toText_quotedLists :
    extendedSystem.registry.Booted ∧
      (∃ text root s', quotedLists.toText (.list ⟨0⟩) = some (.ok text) ∧
        (extendedSystem.read text).runFrom .empty = some (.ok root, s') ∧
        s'.heap.Unfolds (.list root)
          (.list [.list [.symbol ⟨⟨"a"⟩, none⟩, .string "\t\"", .list []]])) ∧
      ∃ text position kind s', quotedLists.toText (.list ⟨2⟩) = some (.ok text) ∧
        (extendedSystem.read text).runFrom .empty = some (.error (.read position kind), s') ∧
        kind.message = "unknown string escape" := by
  obtain ⟨hread, -⟩ := read_toText booted_extendedSystem
  refine ⟨booted_extendedSystem, ?_, ?_⟩
  · have hl : quotedLists.Unfolds (.list ⟨0⟩)
        (.list [.symbol ⟨⟨"a"⟩, none⟩, .string "\t\"", .list []]) := by
      simp [quotedLists, Heap.Unfolds, Heap.elements, Heap.size, Syntax.ofSymbol]
    have hplain : AllPlain [.symbol ⟨⟨"a"⟩, none⟩, .string "\t\"", .list []] :=
      ⟨⟨by decide, rfl⟩, trivial, trivial, trivial⟩
    obtain ⟨text, htext, hrun⟩ := hread _ _ _ hl hplain
    obtain ⟨root, s', hroot⟩ := (hrun .empty).1.mpr not_escapedOtherwise_tabQuote
    exact ⟨text, root, s', htext, hroot⟩
  · have hl : quotedLists.Unfolds (.list ⟨2⟩) (.list [.string "\r"]) := by
      simp [quotedLists, Heap.Unfolds, Heap.elements, Heap.size]
    have hreturn : Text.EscapedOtherwise '\r' :=
      Text.escapedOtherwise_iff_class.mpr ⟨by decide, by decide, .inl (by decide)⟩
    obtain ⟨text, htext, hrun⟩ := hread _ _ _ hl ⟨trivial, trivial⟩
    obtain ⟨position, kind, s', herror⟩ := (hrun .empty).2
      ⟨"\r", List.mem_singleton_self _, '\r', List.mem_singleton_self _, hreturn⟩
    exact ⟨text, position, kind, s', htext, herror⟩

end ObjectSystem
end LispFront
