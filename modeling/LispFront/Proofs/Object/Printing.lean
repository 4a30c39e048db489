import LispFront.Proofs.Object.CoreGraph
import LispFront.Proofs.Syntax.Unfolding

/-!
# Printing syntax objects

There are two ways to a text for a syntax object: `Heap.toText` writes its tree, and `print-object`
prints a list by sending itself to the elements.  The core methods for syntax objects stand in front
of all methods that users add to `print-object`, and while the core classes are left alone none of
them applies to an object of another one's class (`CoreExact.select_printer`).  Then the two texts
are the same, by induction on the tree (`answers_perform_print`).
-/

namespace LispFront

/-- The core method that prints a syntax object. -/
def Syntax.printer : Syntax → CoreMethod
  | symbol _ => .printSyntaxSymbol
  | string _ => .printSyntaxString
  | number _ => .printSyntaxNumber
  | list _ => .printSyntaxList

namespace Registry

variable {r : Registry} {n m : Nat}

/-! ## Selecting the printer -/

/-- The core methods that print syntax objects, in the order of their registration, with the places
of the classes that they ask for. -/
def syntaxPrinters : List (Nat × CoreMethod) :=
  [(12, .printSyntaxList), (9, .printSyntaxSymbol), (10, .printSyntaxString),
    (11, .printSyntaxNumber)]

/-- The method that a line of the list above stands for. -/
def printerEntry (n : Nat) (line : Nat × CoreMethod) : MethodEntry :=
  ⟨⟨.core line.2, .nil⟩, [⟨n + line.1⟩]⟩

/-- The printers of syntax objects stand in front of all other methods of `print-object`. -/
theorem CoreAt.printers_front (h : CoreAt r n m) :
    syntaxPrinters.map (printerEntry n) <+: (r.getGeneric ⟨m + 5⟩).methods := by
  have hcore : syntaxPrinters.map (printerEntry n) <+: coreEntries (coreFrom n m) ⟨m + 5⟩ := by
    simp [syntaxPrinters, printerEntry, coreEntries, entriesFor, coreMethods, coreFrom,
      coreGenericsFrom, coreClassesFrom]
  exact hcore.trans (h.generics 5 _ rfl).2.2

/-- Every syntax object has a printer, and those before it are for other classes. -/
theorem exists_syntaxPrinters_eq (x : Syntax) :
    ∃ i, syntaxPrinters[i]? = some (x.classIndex, x.printer) ∧
      ∀ line ∈ syntaxPrinters.take i, 1 < line.1 ∧ line.1 ≠ x.classIndex := by
  cases x with
  | list l => exact ⟨0, rfl, by simp⟩
  | symbol s => exact ⟨1, rfl, by simp [syntaxPrinters, Syntax.classIndex]⟩
  | string text => exact ⟨2, rfl, by simp [syntaxPrinters, Syntax.classIndex]⟩
  | number n => exact ⟨3, rfl, by simp [syntaxPrinters, Syntax.classIndex]⟩

/-- A syntax object is printed by its core method, whatever methods there are. -/
theorem CoreExact.select_printer (h : CoreExact r n m) (hr : r.Booted) (x : Syntax) :
    ∃ selection, r.select ⟨m + 5⟩ 1 0 [.stx x] = .ok selection ∧
      selection.closure = ⟨.core x.printer, .nil⟩ := by
  obtain ⟨i, hprinter, hothers⟩ := exists_syntaxPrinters_eq x
  have hlt : i < syntaxPrinters.length := (List.getElem?_eq_some_iff.mp hprinter).1
  have hfront (j : Nat) (hj : j < syntaxPrinters.length) :
      (r.getGeneric ⟨m + 5⟩).methods[j]? = (syntaxPrinters[j]?).map (printerEntry n) := by
    obtain ⟨others, hmethods⟩ := h.printers_front
    rw [← hmethods, List.getElem?_append_left (by simpa using hj), List.getElem?_map]
  have hclass := h.classOf_stx hr.consistent x
  have hentry : (r.getGeneric ⟨m + 5⟩).methods[i]? =
      some (printerEntry n (x.classIndex, x.printer)) := by
    rw [hfront i hlt, hprinter]
    rfl
  refine ⟨_, hr.select_of_first rfl hentry (appliesTo_receiver.mpr ⟨_, hclass, .refl⟩) ?_, rfl⟩
  intro j hj earlier hearlier happlies
  rw [hfront j (hj.trans hlt), List.getElem?_eq_getElem (hj.trans hlt)] at hearlier
  obtain rfl := Option.some.inj hearlier
  obtain ⟨c, hc, hinherits⟩ := appliesTo_receiver.mp happlies
  rw [hclass] at hc
  cases hc
  -- The method is for another class of syntax objects, and these do not inherit from each other.
  obtain ⟨hplace, hne⟩ := hothers _ (List.mem_take_iff_getElem.mpr ⟨j, by omega, rfl⟩)
  rcases h.eq_of_inherits x hinherits with heq | heq | heq
  all_goals
    have hindex := congrArg ClassId.index heq
    simp only at hindex
    omega

end Registry

/-! ## Printing in a body -/

namespace Body

variable {perform : Request → Exec Value} {h h' : Heap}

theorem answers_run_print {r : Registry} {core : Core} (hcore : r.getCore = .ok core) {v : Value}
    {text : String}
    (hsend : (perform (.send core.generics.printObject 1 0 [v])).Answers h (.ok (.string text)) h') :
    ((print r v).run perform).Answers h (.ok text) h' := by
  unfold print
  rw [hcore, run_then]
  refine (answers_run_ofExcept (.ok core) h).bind_ok ?_
  rw [run_then]
  exact (answers_run_send hsend).bind_ok (answers_run_ofExcept (.ok text) h')

end Body

namespace ObjectSystem

open Registry

variable {sys : ObjectSystem} {n m depth : Nat} {h h' : Heap} {x : Syntax} {d : Datum}

theorem answers_perform_send {generic : GenericId} {npos nkey : UInt64} {args : List Value}
    {selection : Selection} (hselect : sys.registry.select generic npos nkey args = .ok selection)
    {result : Except Error Value}
    (henter : (sys.enter (sys.perform depth) selection.closure npos nkey args).Answers h result h') :
    (sys.perform (depth + 1) (.send generic npos nkey args)).Answers h result h' := by
  rw [perform, hselect]
  exact (Exec.answers_ofExcept _ h).bind_ok ((Exec.answers_trace _ h).bind_ok henter)

/-- A send of `print-object` to a syntax object runs its core method, one level deeper. -/
theorem answers_perform_printer (hr : sys.registry.Booted) (hat : CoreExact sys.registry n m)
    {result : Except Error Value}
    (hbody : ((x.printer.bodyOfOne sys.registry (.stx x)).run (sys.perform depth)).Answers h
      result h') :
    (sys.perform (depth + 1) (.send ⟨m + 5⟩ 1 0 [.stx x])).Answers h result h' := by
  obtain ⟨selection, hselect, hclosure⟩ := hat.select_printer hr x
  refine answers_perform_send hselect ?_
  rw [hclosure]
  have hmethod : x.printer.method sys.registry .nil 1 0 [.stx x] =
      x.printer.bodyOfOne sys.registry (.stx x) := by
    cases x <;> rfl
  show ((x.printer.method sys.registry .nil 1 0 [.stx x]).run (sys.perform depth)).Answers h _ h'
  rw [hmethod]
  exact hbody

/-- What is written is the text of the tree. -/
theorem answers_printWrittenBody (perform : Request → Exec Value) (hx : h.Unfolds x d) :
    ((CoreMethod.printWrittenBody (.stx x)).run perform).Answers h (.ok (.string d.toText)) h := by
  unfold CoreMethod.printWrittenBody
  rw [Body.run_then]
  refine (Body.answers_run_ofExcept (.ok x) h).bind_ok ?_
  rw [Body.run_then]
  exact (Body.answers_run_ofHeap hx.toText_eq).bind_ok (Exec.answers_pure _ h)

/-- An object whose printer writes it is printed as it is written. -/
theorem answers_perform_written (hr : sys.registry.Booted) (hat : CoreExact sys.registry n m)
    (hx : h.Unfolds x d)
    (hprinter : x.printer.bodyOfOne sys.registry (.stx x) = CoreMethod.printWrittenBody (.stx x))
    (hdepth : d.height < depth) :
    (sys.perform depth (.send ⟨m + 5⟩ 1 0 [.stx x])).Answers h (.ok (.string d.toText)) h := by
  obtain ⟨depth, rfl⟩ := Nat.exists_eq_succ_of_ne_zero (Nat.ne_zero_of_lt hdepth)
  refine answers_perform_printer hr hat ?_
  rw [hprinter]
  exact answers_printWrittenBody _ hx

mutual

/-- The generic function `print-object` gives the text of the tree, when the sends may nest deeper
than its lists. -/
theorem answers_perform_print (hr : sys.registry.Booted) (hat : CoreExact sys.registry n m)
    {x : Syntax} {depth : Nat} : {d : Datum} → h.Unfolds x d → d.height < depth →
      (sys.perform depth (.send ⟨m + 5⟩ 1 0 [.stx x])).Answers h (.ok (.string d.toText)) h
  | .symbol s, hx, hdepth => by
      obtain rfl : x = .symbol s := hx
      obtain ⟨depth, rfl⟩ := Nat.exists_eq_succ_of_ne_zero (Nat.ne_of_gt hdepth)
      exact answers_perform_printer hr hat (Exec.answers_pure _ h)
  | .string text, hx, hdepth => by
      have hstring : x = .string text := hx
      subst hstring
      exact answers_perform_written hr hat hx rfl hdepth
  | .number number, hx, hdepth => by
      have hnumber : x = .number number := hx
      subst hnumber
      exact answers_perform_written hr hat hx rfl hdepth
  | .list ds, hx, hdepth => by
      obtain ⟨l, rfl, -, hall⟩ := hx
      rw [Datum.height] at hdepth
      obtain ⟨depth, rfl⟩ : ∃ k, depth = k + 1 := ⟨depth - 1, by omega⟩
      refine answers_perform_printer hr hat ?_
      show ((CoreMethod.printListBody sys.registry (.stx (.list l))).run _).Answers h _ h
      unfold CoreMethod.printListBody
      rw [Body.run_then]
      refine (Body.answers_run_ofExcept (.ok l) h).bind_ok ?_
      rw [Body.run_then]
      have hlook : (fun h : Heap => (pure (h.elements l) : Answer (List Syntax))) h =
          some (.ok (h.elements l)) := rfl
      refine (Body.answers_run_ofHeap hlook).bind_ok ?_
      rw [Body.run_then, Datum.toText, String.append_assoc]
      exact (answers_printElements hr hat hall (by omega)).bind_ok (Exec.answers_pure _ h)

/-- The elements of a list are printed one after the other. -/
theorem answers_printElements (hr : sys.registry.Booted) (hat : CoreExact sys.registry n m)
    {xs : List Syntax} {depth : Nat} : {ds : List Datum} → h.UnfoldsAll xs ds →
      Datum.heights ds < depth →
      ((CoreMethod.printElements sys.registry xs).run (sys.perform depth)).Answers h
        (.ok (Datum.elementsText ds ++ ")")) h
  | [], hall, _ => by
      obtain rfl : xs = [] := hall
      exact Exec.answers_pure _ h
  | d :: ds, hall, hdepth => by
      obtain ⟨x, rest, rfl, hx, hrest⟩ := hall
      obtain ⟨hfirst, hothers⟩ := max_lt_iff.mp hdepth
      have hprint := answers_perform_print hr hat hx hfirst
      rw [CoreMethod.printElements, Body.run_then]
      refine (Body.answers_run_print hat.getCore_eq hprint).bind_ok ?_
      rw [Body.run_then, Datum.elementsText, String.append_assoc]
      exact (answers_printElements hr hat hrest hothers).bind_ok (Exec.answers_pure _ h)

end

/-- Printing a syntax object answers with the text of its tree and leaves the heap as it is. -/
theorem answers_print (hsys : sys.registry.CoreIntact) (hx : h.Unfolds x d) :
    (sys.print (.stx x)).Answers h (.ok d.toText) h := by
  obtain ⟨n, m, hat⟩ := hsys.exists_coreExact
  have hsend : (sys.sendRaw ⟨m + 5⟩ 1 0 [.stx x]).Answers h (.ok (.string d.toText)) h := by
    refine Exec.answers_get_bind fun log => answers_perform_print hsys.booted hat hx ?_
    -- The bound on nested sends grows with the heap, and a tree is no higher than the heap.
    have hheight := hx.height_le_size
    show d.height < h.size + 5000
    omega
  unfold print
  rw [hat.getCore_eq]
  refine (Exec.answers_ofExcept (.ok (coreFrom n m)) h).bind_ok (hsend.bind_ok ?_)
  exact Exec.answers_ofExcept (.ok d.toText) h

/-- While no core class gets another superclass, whatever else is registered, a syntax object that
stands for a finite tree is printed as it is written: `print-object` succeeds, with the text that
the tree has in the heap, and leaves the heap as it is. -/
theorem print_eq_toText (hsys : sys.registry.CoreIntact) {s : Store} (hx : s.heap.Unfolds x d) :
    ∃ text s', s.heap.toText x = some (.ok text) ∧
      (sys.print (.stx x)).runFrom s = some (.ok text, s') ∧ s'.heap = s.heap := by
  obtain ⟨log, hrun⟩ := answers_print hsys hx s.log
  exact ⟨d.toText, ⟨s.heap, log⟩, hx.toText_eq, hrun, rfl⟩

/-- A system with two methods of a user for `print-object`, one for everything and one for lists,
and with a class of lists that are symbols too. -/
def loudSystem : ObjectSystem :=
  ⟨Registration.applyAll
    [.addMethod ⟨5⟩ ⟨.user "loud", .nil⟩ [], .putMethod ⟨12⟩ ⟨5⟩ ⟨.user "loud", .nil⟩,
      .defineClass ⟨"page"⟩ [⟨12⟩], .addSuperclass ⟨13⟩ ⟨9⟩] coreOnly,
    fun _ _ env _ _ _ => pure env⟩

/-- A list with the same list at two places, and a number. -/
def sharedPages : Heap :=
  ⟨#[[.list ⟨1⟩, .list ⟨1⟩, .number (.fixnum 42)], [.ofSymbol ⟨"a"⟩, .string "b\n"]]⟩

/-- The user's methods are not asked. -/
theorem print_sharedPages :
    let page : Datum := .list [.symbol ⟨⟨"a"⟩, none⟩, .string "b\n"]
    loudSystem.registry.CoreIntact ∧
      sharedPages.Unfolds (.list ⟨0⟩) (.list [page, page, .number (.fixnum 42)]) ∧
      ∃ s', (loudSystem.print (.stx (.list ⟨0⟩))).runFrom ⟨sharedPages, #[]⟩ =
        some (.ok "((a \"b\\n\" ) (a \"b\\n\" ) 42 )", s') := by
  intro page
  have hintact : loudSystem.registry.CoreIntact :=
    coreIntact_coreOnly.steps (by decide +kernel) (by decide +kernel)
  have hunfolds : sharedPages.Unfolds (.list ⟨0⟩) (.list [page, page, .number (.fixnum 42)]) := by
    simp [page, sharedPages, Heap.Unfolds, Heap.elements, Heap.size, Syntax.ofSymbol]
  obtain ⟨text, s', htext, hrun, -⟩ := print_eq_toText hintact (s := ⟨sharedPages, #[]⟩) hunfolds
  have hpages : (Datum.list [page, page, .number (.fixnum 42)]).toText =
      "((a \"b\\n\" ) (a \"b\\n\" ) 42 )" := by decide +kernel
  rw [hunfolds.toText_eq, hpages] at htext
  cases htext
  exact ⟨hintact, hunfolds, s', hrun⟩

end ObjectSystem
end LispFront
