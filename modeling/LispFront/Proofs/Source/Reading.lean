import LispFront.Proofs.Source.Building
import LispFront.Proofs.Source.Places

/-!
# Reading is spelling

In a booted system, whatever is registered in it, a source text is read exactly when it is a
spelling of a forest, and it is then read into a list that stands for that forest.  The fault of any
other text is the error of reading it.  As there is only one answer from a store, a source is a
spelling of one forest at most.
-/

namespace LispFront
namespace ObjectSystem

open Source

variable {sys : ObjectSystem} {n m : Nat} {text : String}

/-- A spelling of a forest is read into a new list that stands for the forest. -/
theorem answers_read (hr : sys.registry.Booted) {ds : List Datum}
    (hspells : Spells ds text.toList) (h : Heap) :
    ∃ h', (sys.read text).Answers h (.ok ⟨h.size⟩) h' ∧
      h'.Unfolds (.list ⟨h.size⟩) (.list ds) ∧ h.Extends h' := by
  obtain ⟨n, m, hat⟩ := hr.coreAt
  obtain ⟨tokens, htokens, hspelled⟩ := hspells
  obtain ⟨lexemes, hscan, hlexemes⟩ := scan_iff_spelled.mpr hspelled
  have hroot : (⟨⟨m⟩, ⟨h.size⟩, []⟩ : Builder).current.address < (h.alloc []).2.size := by
    rw [Heap.size_alloc]
    exact Nat.lt_succ_self _
  obtain ⟨h', hgrown, hbuild⟩ :=
    exists_grown_of_tokens text.toList hr hat htokens hlexemes rfl hroot []
  have hlexed := hbuild [] _ h' (Exec.answers_pure _ h')
  rw [List.append_nil] at hlexed
  refine ⟨h', ?_, hgrown.unfolds, hgrown.extends⟩
  unfold read
  refine (Builder.answers_new hat h).bind_ok ?_
  simp only [hscan]
  refine hlexed.bind_ok ?_
  refine Exec.answers_get_bind fun log => (Exec.answers_trace _ h').bind_ok ?_
  exact Exec.answers_pure _ h'

theorem positionOf_append (before after : List Char) :
    positionOf (before ++ after) after = positionAfter before := by
  unfold positionOf
  rw [List.length_append, Nat.add_sub_cancel, List.take_left]

/-- What is scanned and built up to a place between tokens, whatever follows it, but an atom has to
end there. -/
theorem exists_builder_of_openAt (hr : sys.registry.Booted)
    (hat : Registry.CoreAt sys.registry n m) {depth : Nat} {before after : List Char}
    (hplace : OpenAt depth before) (hends : AtomEnds after) (h : Heap) :
    ∃ (lexemes : List Lexeme) (h' : Heap) (b' : Builder) (unclosed' : List (List Char)),
      scan (before ++ after) = (lexemes ++ (scan after).1, (scan after).2) ∧ b'.add = ⟨m⟩ ∧
      b'.depth = depth ∧ b'.current.address < h'.size ∧
      ∀ (later : List Lexeme) (result : Except Error (List (List Char) × Builder)) (h'' : Heap),
        (build sys (before ++ after) later unclosed' b').Answers h' result h'' →
        (build sys (before ++ after) (lexemes ++ later) [] ⟨⟨m⟩, ⟨h.size⟩, []⟩).Answers
          (h.alloc []).2 result h'' := by
  obtain ⟨tokens, hopening, hspelled⟩ := hplace
  obtain ⟨lexemes, hlexemes, hscan⟩ := scan_of_spelledTo hspelled hends
  have hroot : (⟨⟨m⟩, ⟨h.size⟩, []⟩ : Builder).current.address < (h.alloc []).2.size := by
    rw [Heap.size_alloc]
    exact Nat.lt_succ_self _
  obtain ⟨h', b', unclosed', hb', hdepth, hcurrent, hbuild⟩ :=
    exists_builder_of_opening (before ++ after) hr hat hopening hlexemes rfl hroot []
  rw [show (⟨⟨m⟩, ⟨h.size⟩, []⟩ : Builder).depth = 0 from rfl, Nat.zero_add] at hdepth
  exact ⟨lexemes, h', b', unclosed', hscan, hb', hdepth, hcurrent, hbuild⟩

/-- The fault of a token is an error, once all lexemes before it are built. -/
theorem exists_answers_read_of_scanToken (hr : sys.registry.Booted) {depth : Nat}
    {before rest : List Char} {c : Char} {fault : Fault} (htext : text.toList = before ++ c :: rest)
    (hplace : OpenAt depth before) (hstart : TokenStart c)
    (hfault : scanToken c rest = .error fault) (h : Heap) :
    ∃ h', (sys.read text).Answers h (.error (fault.toError text.toList)) h' := by
  obtain ⟨n, m, hat⟩ := hr.coreAt
  have hleft : Left (c :: rest) (some fault) := .fault hstart hfault
  obtain ⟨lexemes, h', b', unclosed', hscan, -, -, -, hbuild⟩ :=
    exists_builder_of_openAt hr hat hplace hleft.atomEnds h
  have hbuilt := hbuild [] _ h' (Exec.answers_pure _ h')
  rw [hleft.scan_eq] at hscan
  refine ⟨h', ?_⟩
  unfold read
  refine (Builder.answers_new hat h).bind_ok ?_
  simp only [htext, hscan]
  exact hbuilt.bind_ok (Exec.answers_throw _ h').bind_error

/-- A parenthesis that closes nothing is an error as soon as the builder meets it. -/
theorem exists_answers_read_of_closeList (hr : sys.registry.Booted) {before rest : List Char}
    (htext : text.toList = before ++ ')' :: rest) (hplace : OpenAt 0 before) (h : Heap) :
    ∃ h', (sys.read text).Answers h
      (.error (Fault.toError text.toList ⟨.closeWithoutOpen, ')' :: rest⟩)) h' := by
  obtain ⟨n, m, hat⟩ := hr.coreAt
  have hmark : Written .closeList [')'] := .closeList
  have htoken : scan (')' :: rest) = (⟨.closeList, ')' :: rest⟩ :: (scan rest).1, (scan rest).2) :=
    scan_of_written hmark nofun
  obtain ⟨lexemes, h', b', unclosed', hscan, -, hdepth, -, hbuild⟩ :=
    exists_builder_of_openAt hr hat hplace (hmark.atomEnds rfl rest) h
  rw [show [')'] ++ rest = ')' :: rest from rfl, ← htext] at hscan hbuild
  have hbuilt := hbuild (⟨.closeList, ')' :: rest⟩ :: (scan rest).1)
    (.error (Fault.toError text.toList ⟨.closeWithoutOpen, ')' :: rest⟩)) h' (by
      rw [build, if_pos hdepth]
      exact (Exec.answers_throw _ h').bind_error)
  refine ⟨h', ?_⟩
  unfold read
  refine (Builder.answers_new hat h).bind_ok ?_
  simp only [hscan, htoken]
  exact hbuilt.bind_error

/-- A list that has no end is an error once everything in it is built. -/
theorem exists_answers_read_of_openList (hr : sys.registry.Booted) {depth : Nat}
    {before rest : List Char} {ds : List Datum} (htext : text.toList = before ++ '(' :: rest)
    (hplace : OpenAt depth before) (hrest : Spells ds rest) (h : Heap) :
    ∃ h', (sys.read text).Answers h
      (.error (Fault.toError text.toList ⟨.unclosedList, '(' :: rest⟩)) h' := by
  obtain ⟨n, m, hat⟩ := hr.coreAt
  obtain ⟨inner, hinner, hspelled⟩ := hrest
  obtain ⟨inside, hinside, hlexemes⟩ := scan_iff_spelled.mpr hspelled
  have hmark : Written .openList ['('] := .openList
  have htoken : scan ('(' :: rest) =
      (⟨.openList, '(' :: rest⟩ :: (scan rest).1, (scan rest).2) := scan_of_written hmark nofun
  rw [hinside] at htoken
  obtain ⟨lexemes, h₁, b₁, unclosed₁, hscan, hb₁, -, -, hbuild⟩ :=
    exists_builder_of_openAt hr hat hplace (hmark.atomEnds rfl rest) h
  rw [show ['('] ++ rest = '(' :: rest from rfl, ← htext] at hscan hbuild
  have hpush := Builder.answers_push hr hat hb₁ h₁
  obtain ⟨h', -, hbuild'⟩ := exists_grown_of_tokens text.toList hr hat hinner hlexemes
    (b := { b₁ with opened := ⟨h₁.size⟩ :: b₁.opened }) hb₁
    (h := (h₁.alloc []).2.append b₁.current (.list ⟨h₁.size⟩))
    (by simp [Builder.current]) (('(' :: rest) :: unclosed₁)
  have hinside := hbuild' [] _ h' (Exec.answers_pure _ h')
  rw [List.append_nil] at hinside
  have hbuilt := hbuild (⟨.openList, '(' :: rest⟩ :: inside) _ h' (by
    rw [build]
    exact hpush.bind_ok hinside)
  refine ⟨h', ?_⟩
  unfold read
  refine (Builder.answers_new hat h).bind_ok ?_
  simp only [hscan, htoken]
  exact hbuilt.bind_ok (Exec.answers_throw _ h').bind_error

/-- A fault of a source is the error of reading it, with its position. -/
theorem exists_answers_read_of_faultAt (hr : sys.registry.Booted) {kind : ReadFault}
    {before after : List Char} (htext : text.toList = before ++ after)
    (hfault : FaultAt kind before after) (h : Heap) :
    ∃ h', (sys.read text).Answers h (.error (.read (positionAfter before) kind)) h' := by
  have hposition : Fault.toError text.toList ⟨kind, after⟩ = .read (positionAfter before) kind := by
    rw [Fault.toError, htext, positionOf_append]
  rw [← hposition]
  by_cases hkind : kind ∈ [.closeWithoutOpen, .unclosedList]
  · cases hfault with
    | closeWithoutOpen hplace => exact exists_answers_read_of_closeList hr htext hplace h
    | unclosedList hplace hrest => exact exists_answers_read_of_openList hr htext hplace hrest h
    | _ => exact absurd hkind (by decide)
  · obtain ⟨depth, place, c, rest, hsource, hplace, hstart, htoken⟩ := hfault.exists_scanToken hkind
    exact exists_answers_read_of_scanToken hr (htext.trans hsource) hplace hstart htoken h

/-- A text is a spelling of one forest at most: a booted system reads both into one list. -/
theorem spells_unique (hr : sys.registry.Booted) {ds ds' : List Datum}
    (h : Spells ds text.toList) (h' : Spells ds' text.toList) : ds = ds' := by
  obtain ⟨heap, hread, hunfolds, -⟩ := answers_read hr h .empty
  obtain ⟨heap', hread', hunfolds', -⟩ := answers_read hr h' .empty
  obtain ⟨-, rfl⟩ := hread.unique hread'
  exact Datum.list.inj (hunfolds.unique hunfolds')

theorem exists_run_of_spells (hr : sys.registry.Booted) (s : Store) {ds : List Datum}
    (hspells : Spells ds text.toList) :
    ∃ root s', (sys.read text).runFrom s = some (.ok root, s') ∧
      s'.heap.Unfolds (.list root) (.list ds) := by
  obtain ⟨h', hread, hunfolds, -⟩ := answers_read hr hspells s.heap
  obtain ⟨log, hrun⟩ := hread s.log
  exact ⟨⟨s.heap.size⟩, ⟨h', log⟩, hrun, hunfolds⟩

theorem exists_run_of_faultAt (hr : sys.registry.Booted) (s : Store) {kind : ReadFault}
    {before after : List Char} (htext : text.toList = before ++ after)
    (hfault : FaultAt kind before after) :
    ∃ s', (sys.read text).runFrom s = some (.error (.read (positionAfter before) kind), s') := by
  obtain ⟨h', hread⟩ := exists_answers_read_of_faultAt hr htext hfault s.heap
  obtain ⟨log, hrun⟩ := hread s.log
  exact ⟨⟨h', log⟩, hrun⟩

/-- What is read without an error is a spelling. -/
theorem exists_spells_of_run (hr : sys.registry.Booted) {root : ListRef} {s s' : Store}
    (hrun : (sys.read text).runFrom s = some (.ok root, s')) :
    ∃ ds, Spells ds text.toList ∧ s'.heap.Unfolds (.list root) (.list ds) := by
  rcases spells_or_faultAt text.toList with ⟨ds, hspells⟩ | ⟨kind, before, after, htext, hfault⟩
  · obtain ⟨root', s'', hrun', hunfolds⟩ := exists_run_of_spells hr s hspells
    rw [hrun] at hrun'
    cases hrun'
    exact ⟨ds, hspells, hunfolds⟩
  · obtain ⟨s'', hrun'⟩ := exists_run_of_faultAt hr s htext hfault
    rw [hrun] at hrun'
    cases hrun'

/-- Reading fails at a fault only. -/
theorem exists_faultAt_of_run (hr : sys.registry.Booted) {e : Error} {s s' : Store}
    (hrun : (sys.read text).runFrom s = some (.error e, s')) :
    ∃ kind before after, text.toList = before ++ after ∧ FaultAt kind before after ∧
      e = .read (positionAfter before) kind := by
  rcases spells_or_faultAt text.toList with ⟨ds, hspells⟩ | ⟨kind, before, after, htext, hfault⟩
  · obtain ⟨root, s'', hrun', -⟩ := exists_run_of_spells hr s hspells
    rw [hrun] at hrun'
    cases hrun'
  · obtain ⟨s'', hrun'⟩ := exists_run_of_faultAt hr s htext hfault
    rw [hrun] at hrun'
    cases hrun'
    exact ⟨kind, before, after, htext, hfault, rfl⟩

/-- In a booted system, whatever was registered in whatever order, a text is read into a list that
stands for a forest exactly when the text is a spelling of that forest.  What is read always stands
for one forest, and a text is a spelling of one forest at most. -/
theorem read_eq_ok_iff_spells (hsys : sys.registry.Booted) (s : Store) (text : String) :
    (∀ ds, (∃ root s', (sys.read text).runFrom s = some (.ok root, s') ∧
        s'.heap.Unfolds (.list root) (.list ds)) ↔ Spells ds text.toList) ∧
      (∀ root s', (sys.read text).runFrom s = some (.ok root, s') →
        ∃ ds, s'.heap.Unfolds (.list root) (.list ds)) ∧
      ∀ ds ds', Spells ds text.toList → Spells ds' text.toList → ds = ds' := by
  refine ⟨fun ds => ⟨?_, exists_run_of_spells hsys s⟩, ?_, fun _ _ => spells_unique hsys⟩
  · rintro ⟨root, s', hrun, hunfolds⟩
    obtain ⟨ds', hspells, hunfolds'⟩ := exists_spells_of_run hsys hrun
    -- The list that was read stands for one forest only.
    obtain rfl : ds = ds' := Datum.list.inj (hunfolds.unique hunfolds')
    exact hspells
  · intro root s' hrun
    obtain ⟨ds, -, hunfolds⟩ := exists_spells_of_run hsys hrun
    exact ⟨ds, hunfolds⟩

/-- The forest of `a(b"c\n");`: a symbol and a list of a symbol and a string. -/
def sampleForest : List Datum :=
  [.symbol ⟨⟨"a"⟩, none⟩, .list [.symbol ⟨⟨"b"⟩, none⟩, .string "c\n"]]

/-- A token without a gap before it. -/
private theorem spelled_next (afterAtom : Bool) {token : Token} {tokens : List Token}
    {written rest : List Char} (happart : (afterAtom && token.isAtom) = false)
    (hwritten : Written token written) (hrest : Spelled token.isAtom tokens rest) :
    Spelled afterAtom (token :: tokens) (written ++ rest) := by
  refine .cons .nil (fun hbefore hatom => ?_) hwritten hrest
  rw [hbefore, hatom] at happart
  cases happart

theorem spells_sampleForest : Spells sampleForest "a(b\"c\\n\");".toList := by
  have hname : AtomName "a".toList ∧ AtomName "b".toList := by decide
  have ha : Written (.atom "a") ['a'] := .atom hname.1
  have hb : Written (.atom "b") ['b'] := .atom hname.2
  have hbody : Literal "c\n".toList ['c', '\\', 'n'] :=
    .plain (by decide) (by decide) (.escape (by decide) .nil)
  have hlast : Spelled false [] [';'] := .nil (.comment .nil List.not_mem_nil)
  have hclose := spelled_next false rfl .closeList hlast
  have hstring := spelled_next true rfl (.string hbody) hclose
  have hinner := spelled_next false rfl hb hstring
  have hopen := spelled_next true rfl .openList hinner
  have htokens : Tokens sampleForest [.atom "a", .openList, .atom "b", .string "c\n", .closeList] :=
    .symbol (.list (.symbol (.string .nil)) .nil)
  exact ⟨_, htokens, spelled_next false rfl ha hopen⟩

/-- Only the two atoms of this text could need a gap, and the comment runs to its end. -/
theorem read_sampleForest :
    extendedSystem.registry.Booted ∧
      ∃ root s', (extendedSystem.read "a(b\"c\\n\");").runFrom .empty = some (.ok root, s') ∧
        s'.heap.Unfolds (.list root) (.list sampleForest) :=
  ⟨booted_extendedSystem,
    ((read_eq_ok_iff_spells booted_extendedSystem .empty _).1 _).mpr spells_sampleForest⟩

end ObjectSystem
end LispFront
