import LispFront.Proofs.Source.Reading

/-!
# Where reading fails

Reading fails at the place of the fault of a source, and its error names that place: the line
counts the line feeds before it, the column the characters since the last of them.  Unless an end is
missing, the error stays the same whatever is written behind the source.
-/

namespace LispFront

/-- A position names the place after these characters.  Lines and columns are counted from one. -/
structure Position.Names (position : Position) (before : List Char) : Prop where
  line : position.line.toNat = before.count '\n' + 1
  column : ∃ lines line, before = lines ++ line ∧ (lines = [] ∨ ∃ init, lines = init ++ ['\n']) ∧
    '\n' ∉ line ∧ position.column.toNat = line.length + 1

namespace Source

/-- The faults with their wording. -/
def faultMessages : List (ReadFault × String) :=
  [(.closeWithoutOpen, "close parenthesis without matching open"),
    (.unclosedList, "unclosed list at end of input"),
    (.unterminatedString, "unterminated string"),
    (.unknownEscape, "unknown string escape"),
    (.unexpectedInput, "unexpected input")]

theorem mem_faultMessages (kind : ReadFault) : (kind, kind.message) ∈ faultMessages := by
  cases kind <;> decide

/-- The column counts the characters since the last line feed. -/
theorem exists_line (before : List Char) :
    ∃ lines line, before = lines ++ line ∧ (lines = [] ∨ ∃ init, lines = init ++ ['\n']) ∧
      '\n' ∉ line ∧ (before.reverse.takeWhile (· != '\n')).length = line.length := by
  refine ⟨(before.reverse.dropWhile (· != '\n')).reverse,
    (before.reverse.takeWhile (· != '\n')).reverse, ?_, ?_, ?_, List.length_reverse.symm⟩
  · rw [← List.reverse_append, List.takeWhile_append_dropWhile, List.reverse_reverse]
  · cases hrest : before.reverse.dropWhile (· != '\n') with
    | nil => exact .inl rfl
    | cons c rest =>
        have hne : before.reverse.dropWhile (· != '\n') ≠ [] := by simp [hrest]
        have hhead := List.head_dropWhile_not (· != '\n') hne
        have hc : c = '\n' := by simpa [hrest] using hhead
        exact .inr ⟨rest.reverse, by rw [hc, List.reverse_cons]⟩
  · intro hmem
    have hline := List.mem_takeWhile_imp (List.mem_reverse.mp hmem)
    exact absurd rfl (bne_iff_ne.mp hline)

/-- In a source of fewer than `2 ^ 32` characters the computed position names the place. -/
theorem positionAfter_names {before : List Char} (hlength : before.length + 1 < 2 ^ 32) :
    (positionAfter before).Names before := by
  obtain ⟨lines, line, hbefore, hlines, hline, hlast⟩ := exists_line before
  have hcount : before.count '\n' ≤ before.length := List.count_le_length
  have hcolumn : line.length ≤ before.length := by
    rw [hbefore, List.length_append]
    exact Nat.le_add_left _ _
  refine ⟨UInt32.toNat_ofNat_of_lt' ?_, lines, line, hbefore, hlines, hline, ?_⟩
  · exact (Nat.succ_le_succ hcount).trans_lt hlength
  · rw [← hlast]
    refine UInt32.toNat_ofNat_of_lt' ?_
    rw [hlast]
    exact (Nat.succ_le_succ hcolumn).trans_lt hlength

example : positionAfter "a\n(\"b".toList = ⟨2, 4⟩ := by decide

/-- A fault has a character at its place. -/
theorem FaultAt.length_lt {kind : ReadFault} {before after : List Char}
    (h : FaultAt kind before after) : before.length < (before ++ after).length := by
  cases h <;> simp

end Source

namespace ObjectSystem

open Source

variable {sys : ObjectSystem} {text : String}

/-- Reading answers always.  In a source of fewer than `2 ^ 32` characters it fails exactly at the
fault, with its kind and the position that names its place; the characters before a parenthesis that
closes nothing can be read by themselves.  If an end is missing, it can be written behind the
source, and any other error is the error of whatever begins with the source. -/
theorem read_fails_at_fault (hsys : sys.registry.Booted) (s : Store)
    (hlength : text.length < 2 ^ 32) :
    (∃ result s', (sys.read text).runFrom s = some (result, s')) ∧
      (∀ kind before after, text.toList = before ++ after → FaultAt kind before after →
        ∃ position s', (sys.read text).runFrom s = some (.error (.read position kind), s') ∧
          position.Names before) ∧
      ∀ e s', (sys.read text).runFrom s = some (.error e, s') →
        ∃ position kind before after, e = .read position kind ∧
          (kind, kind.message) ∈ faultMessages ∧ text.toList = before ++ after ∧
          position.Names before ∧ FaultAt kind before after ∧
          (kind = .closeWithoutOpen → ∃ root s'',
            (sys.read (String.ofList before)).runFrom s = some (.ok root, s'')) ∧
          (kind ∈ missingEnds → ∃ more root s'',
            (sys.read (text ++ more)).runFrom s = some (.ok root, s'')) ∧
          (kind ∉ missingEnds → ∀ more, ∃ s'',
            (sys.read (text ++ more)).runFrom s = some (.error e, s'')) := by
  have hnames {kind : ReadFault} {before after : List Char}
      (htext : text.toList = before ++ after) (hfault : FaultAt kind before after) :
      (positionAfter before).Names before := by
    have hbound := hfault.length_lt
    rw [← htext, String.length_toList] at hbound
    exact positionAfter_names ((Nat.succ_le_of_lt hbound).trans_lt hlength)
  refine ⟨?_, fun kind before after htext hfault => ?_, fun e s' hrun => ?_⟩
  · rcases spells_or_faultAt text.toList with ⟨ds, hspells⟩ | ⟨kind, before, after, htext, hfault⟩
    · obtain ⟨root, s', hrun, -⟩ := exists_run_of_spells hsys s hspells
      exact ⟨_, s', hrun⟩
    · obtain ⟨s', hrun⟩ := exists_run_of_faultAt hsys s htext hfault
      exact ⟨_, s', hrun⟩
  · obtain ⟨s', hrun⟩ := exists_run_of_faultAt hsys s htext hfault
    exact ⟨_, s', hrun, hnames htext hfault⟩
  · obtain ⟨kind, before, after, htext, hfault, rfl⟩ := exists_faultAt_of_run hsys hrun
    refine ⟨_, kind, before, after, rfl, mem_faultMessages kind, htext, hnames htext hfault, hfault,
      ?_, fun hend => ?_, fun hkind more => ?_⟩
    · rintro rfl
      cases hfault with
      | closeWithoutOpen hplace =>
          obtain ⟨ds, hspells⟩ := hplace.exists_spells
          rw [← String.toList_ofList (l := before)] at hspells
          obtain ⟨root, s'', hrun', -⟩ := exists_run_of_spells hsys s hspells
          exact ⟨root, s'', hrun'⟩
    · obtain ⟨more, ds, hspells⟩ := hfault.exists_mended hend
      rw [← htext, ← String.toList_ofList (l := more), ← String.toList_append] at hspells
      obtain ⟨root, s'', hrun', -⟩ := exists_run_of_spells hsys s hspells
      exact ⟨String.ofList more, root, s'', hrun'⟩
    · refine exists_run_of_faultAt hsys s ?_ (hfault.extend hkind more.toList)
      rw [String.toList_append, htext, List.append_assoc]

/-- In the second line of this text a list is open, and in it a literal with a letter that no
backslash may stand before. -/
theorem faultAt_sampleEscape : FaultAt .unknownEscape "a\n(\"b".toList "\\q".toList := by
  have hname : AtomName "a".toList := by decide
  have hline : Gap ['\n'] := .separator (by decide) .nil
  have hopen : SpelledTo true [.openList] "\n(".toList := .cons hline nofun .openList (.nil .nil)
  have hplace : SpelledTo false [.atom "a", .openList] ([] ++ "a".toList ++ "\n(".toList) :=
    .cons .nil nofun (.atom hname) hopen
  have hopening : Opening 1 [.atom "a", .openList] := .succ (.zero (.symbol .nil)) .nil
  have hbody : Literal ['b'] ['b'] := .plain (by decide) (by decide) .nil
  exact .unknownEscape ⟨_, hopening, hplace⟩ hbody (by decide)

/-- The error is that of the escape, neither that of the literal nor that of the open list. -/
theorem read_sampleEscape_fails :
    extendedSystem.registry.Booted ∧ "a\n(\"b\\q".length < 2 ^ 32 ∧ ∃ position s',
      (extendedSystem.read "a\n(\"b\\q").runFrom .empty =
        some (.error (.read position .unknownEscape), s') ∧ position.Names "a\n(\"b".toList :=
  ⟨booted_extendedSystem, by decide,
    (read_fails_at_fault booted_extendedSystem .empty (by decide)).2.1 _ _ _ rfl
      faultAt_sampleEscape⟩

end ObjectSystem
end LispFront
