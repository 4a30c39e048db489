import LispFront.Proofs.Source.Locating

/-!
# Sources one after the other

A source that can be read does not matter to what stands behind it on a new line.  The second source
is read or fails as it does by itself; its forms follow those of the first, and the place of its
fault moves down by the lines of the first and stays in its column.
-/

namespace LispFront
namespace Source

/-- The column begins anew after a line feed. -/
theorem column_positionAfter_line (first before : List Char) :
    (positionAfter (first ++ '\n' :: before)).column = (positionAfter before).column := by
  have hline : (first ++ '\n' :: before).reverse.takeWhile (· != '\n') =
      before.reverse.takeWhile (· != '\n') := by
    rw [List.reverse_append, List.reverse_cons, List.append_assoc, List.takeWhile_append]
    split
    · rename_i hall
      have hinitial := List.takeWhile_prefix (l := before.reverse) (· != '\n')
      rw [hinitial.eq_of_length hall]
      exact List.append_nil _
    · rfl
  unfold positionAfter
  rw [hline]

theorem line_positionAfter_line {first before : List Char}
    (hlength : (first ++ '\n' :: before).length + 1 < 2 ^ 32) :
    (positionAfter (first ++ '\n' :: before)).line.toNat =
      (positionAfter before).line.toNat + (first.count '\n' + 1) := by
  have hbound : before.length + 1 < 2 ^ 32 := by
    rw [List.length_append, List.length_cons] at hlength
    omega
  rw [(positionAfter_names hlength).line, (positionAfter_names hbound).line, List.count_append,
    List.count_cons_self]
  omega

end Source

namespace ObjectSystem

open Source

variable {sys : ObjectSystem} {first second : String} {ds₁ ds₂ : List Datum}

theorem toList_append_line (first second : String) :
    (first ++ "\n" ++ second).toList = first.toList ++ '\n' :: second.toList := by
  rw [String.toList_append, String.toList_append, List.append_assoc]
  rfl

theorem exists_run_line_of_spells (hsys : sys.registry.Booted) (hfirst : Spells ds₁ first.toList)
    (hsecond : Spells ds₂ second.toList) (s : Store) :
    ∃ root s', (sys.read (first ++ "\n" ++ second)).runFrom s = some (.ok root, s') ∧
      s'.heap.Unfolds (.list root) (.list (ds₁ ++ ds₂)) := by
  refine exists_run_of_spells hsys s ?_
  rw [toList_append_line]
  exact hfirst.append_line hsecond

theorem exists_run_line_of_faultAt (hsys : sys.registry.Booted)
    (hlength : (first ++ "\n" ++ second).length < 2 ^ 32) (hfirst : Spells ds₁ first.toList)
    {kind : ReadFault} {before after : List Char} (hsecond : second.toList = before ++ after)
    (hfault : FaultAt kind before after) (s : Store) :
    ∃ position s', (sys.read (first ++ "\n" ++ second)).runFrom s =
        some (.error (.read position kind), s') ∧
      position.line.toNat = (positionAfter before).line.toNat + (first.toList.count '\n' + 1) ∧
      position.column = (positionAfter before).column := by
  have hlater := hfault.after_line hfirst
  have hsource : (first ++ "\n" ++ second).toList = (first.toList ++ '\n' :: before) ++ after := by
    rw [toList_append_line, hsecond, List.append_assoc, List.cons_append]
  have hbound : (first.toList ++ '\n' :: before).length + 1 < 2 ^ 32 := by
    have hlt := hlater.length_lt
    rw [← hsource, String.length_toList] at hlt
    exact (Nat.succ_le_of_lt hlt).trans_lt hlength
  obtain ⟨s', hrun⟩ := exists_run_of_faultAt hsys s hsource hlater
  exact ⟨_, s', hrun, line_positionAfter_line hbound, column_positionAfter_line _ before⟩

/-- A text that was read, a line feed and another text are read exactly when the other one is, into
the forms of the first followed by those of the other.  Otherwise the error of the other is the
error of both, further down by one line more than the first has line feeds. -/
theorem read_append_line (hsys : sys.registry.Booted)
    (hlength : (first ++ "\n" ++ second).length < 2 ^ 32) {root₁ : ListRef} {s₁ s₁' : Store}
    (hfirst : (sys.read first).runFrom s₁ = some (.ok root₁, s₁')) (s₂ s : Store) :
    ((∃ root s', (sys.read (first ++ "\n" ++ second)).runFrom s = some (.ok root, s')) ↔
        ∃ root₂ s₂', (sys.read second).runFrom s₂ = some (.ok root₂, s₂')) ∧
      (∀ root₂ s₂', (sys.read second).runFrom s₂ = some (.ok root₂, s₂') →
        ∃ root s' ds₁ ds₂, (sys.read (first ++ "\n" ++ second)).runFrom s = some (.ok root, s') ∧
          s₁'.heap.Unfolds (.list root₁) (.list ds₁) ∧
          s₂'.heap.Unfolds (.list root₂) (.list ds₂) ∧
          s'.heap.Unfolds (.list root) (.list (ds₁ ++ ds₂))) ∧
      ∀ e s₂', (sys.read second).runFrom s₂ = some (.error e, s₂') →
        ∃ position position' kind s', e = .read position kind ∧
          (sys.read (first ++ "\n" ++ second)).runFrom s =
            some (.error (.read position' kind), s') ∧
          position'.line.toNat = position.line.toNat + (first.toList.count '\n' + 1) ∧
          position'.column = position.column := by
  obtain ⟨ds₁, hspells₁, hunfolds₁⟩ := exists_spells_of_run hsys hfirst
  refine ⟨⟨?_, ?_⟩, fun root₂ s₂' hsecond => ?_, fun e s₂' hsecond => ?_⟩
  · rintro ⟨root, s', hrun⟩
    rcases spells_or_faultAt second.toList with
      ⟨ds₂, hspells₂⟩ | ⟨kind, before, after, hparts, hfault⟩
    · obtain ⟨root₂, s₂', hsecond, -⟩ := exists_run_of_spells hsys s₂ hspells₂
      exact ⟨root₂, s₂', hsecond⟩
    · -- A fault of the second text would be a fault of both.
      obtain ⟨position, s'', hrun', -⟩ :=
        exists_run_line_of_faultAt hsys hlength hspells₁ hparts hfault s
      rw [hrun] at hrun'
      cases hrun'
  · rintro ⟨root₂, s₂', hsecond⟩
    obtain ⟨ds₂, hspells₂, -⟩ := exists_spells_of_run hsys hsecond
    obtain ⟨root, s', hrun, -⟩ := exists_run_line_of_spells hsys hspells₁ hspells₂ s
    exact ⟨root, s', hrun⟩
  · obtain ⟨ds₂, hspells₂, hunfolds₂⟩ := exists_spells_of_run hsys hsecond
    obtain ⟨root, s', hrun, hunfolds⟩ := exists_run_line_of_spells hsys hspells₁ hspells₂ s
    exact ⟨root, s', ds₁, ds₂, hrun, hunfolds₁, hunfolds₂, hunfolds⟩
  · obtain ⟨kind, before, after, hparts, hfault, rfl⟩ := exists_faultAt_of_run hsys hsecond
    obtain ⟨position, s', hrun, hline, hcolumn⟩ :=
      exists_run_line_of_faultAt hsys hlength hspells₁ hparts hfault s
    exact ⟨_, position, kind, s', rfl, hrun, hline, hcolumn⟩

/-- The comment at the end of the first text does not reach into the second, whose fault is in the
third line now. -/
theorem read_sampleEscape_after_sampleForest :
    extendedSystem.registry.Booted ∧
      ("a(b\"c\\n\");" ++ "\n" ++ "a\n(\"b\\q").length < 2 ^ 32 ∧
      (∃ root s', (extendedSystem.read "a(b\"c\\n\");").runFrom .empty = some (.ok root, s')) ∧
      ∃ position s',
        (extendedSystem.read ("a(b\"c\\n\");" ++ "\n" ++ "a\n(\"b\\q")).runFrom .empty =
          some (.error (.read position .unknownEscape), s') ∧ position.line.toNat = 3 := by
  have hlength : ("a(b\"c\\n\");" ++ "\n" ++ "a\n(\"b\\q").length < 2 ^ 32 := by decide
  obtain ⟨root, s₁, hfirst, -⟩ :=
    exists_run_of_spells booted_extendedSystem .empty spells_sampleForest
  have hsecond : ∃ s', (extendedSystem.read "a\n(\"b\\q").runFrom .empty =
      some (.error (.read ⟨2, 4⟩ .unknownEscape), s') :=
    exists_run_of_faultAt booted_extendedSystem .empty rfl faultAt_sampleEscape
  obtain ⟨s₂, hsecond⟩ := hsecond
  obtain ⟨_, position, _, s', herror, hrun, hline, -⟩ :=
    (read_append_line booted_extendedSystem hlength hfirst .empty .empty).2.2 _ _ hsecond
  cases herror
  exact ⟨booted_extendedSystem, hlength, ⟨root, s₁, hfirst⟩, position, s', hrun,
    hline.trans (by decide)⟩

end ObjectSystem
end LispFront
