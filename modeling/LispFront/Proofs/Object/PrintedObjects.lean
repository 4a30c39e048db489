import LispFront.Proofs.Object.Printing
import LispFront.Proofs.Syntax.Cycles

/-!
# Printing objects

As long as no method is added to `print-object`, an object is received by the first core method for
a class that the class of the object inherits from.  Those of the methods that look at the value
refuse it, because an object holds no value of a core class; what is left are `nil` and the name of
the class (`CoreMethod.textOfObject`).  Values that are no objects are printed by the method of
their own class, or by that for all values, as long as the core classes inherit from nothing else.
-/

namespace LispFront

/-- What a core method makes of an object as its only argument, as a text. -/
def CoreMethod.textOfObject (className : Symbol) : CoreMethod → Except Error String
  | addElement => .error (.wrongArgumentCount 2 1)
  | firstElement | secondElement | thirdElement | fourthElement | printSyntaxList =>
    .error (.identity "syntax list" "instance")
  | printSyntaxSymbol => .error (.identity "syntax symbol" "instance")
  | printSyntaxString | printSyntaxNumber => .error (.identity "syntax object" "instance")
  | printSymbol => .error (.identity "symbol" "instance")
  | printString => .error (.identity "string" "instance")
  | printNumber => .error (.identity "number" "instance")
  | printNil => .ok "nil"
  | printObject => .ok ("#<" ++ className.name ++ ">")

namespace Registry

variable {r : Registry} {n m : Nat} {v : Value} {c : ClassId} {op : Registration}

/-! ## The methods of `print-object` -/

/-- Whether `print-object` has the methods of the bootstrap and no others. -/
def OnlyCorePrinters (r : Registry) : Prop :=
  ∃ core, r.core = some core ∧ (r.getGeneric core.generics.printObject).methods =
    coreEntries core core.generics.printObject

theorem CoreAt.onlyCorePrinters_iff (hat : CoreAt r n m) : r.OnlyCorePrinters ↔
    (r.getGeneric ⟨m + 5⟩).methods = coreEntries (coreFrom n m) ⟨m + 5⟩ := by
  constructor
  · rintro ⟨core, hcore, hmethods⟩
    obtain rfl : core = coreFrom n m := Option.some.inj (hcore.symm.trans hat.core)
    exact hmethods
  · exact fun hmethods => ⟨coreFrom n m, hat.core, hmethods⟩

/-- The methods that a registration adds to a generic function. -/
def Registration.addedTo (generic : GenericId) : Registration → List MethodEntry
  | .addMethod id closure specializers => if generic = id then [⟨closure, specializers⟩] else []
  | .putMethod c id closure => if generic = id then [⟨closure, [c]⟩] else []
  | _ => []

theorem methods_apply (hr : r.Booted) (hop : op.Admissible r) {generic : GenericId}
    (hgeneric : r.HasGeneric generic) : ((op.apply r).getGeneric generic).methods =
      (r.getGeneric generic).methods ++ op.addedTo generic := by
  have hadd (id : GenericId) (closure : Closure) (specializers : List ClassId)
      (hid : r.HasGeneric id) :
      ((addMethod id closure specializers r).2.getGeneric generic).methods =
        (r.getGeneric generic).methods ++
          if generic = id then [⟨closure, specializers⟩] else [] := by
    rw [getGeneric_addMethod hid]
    split
    · rename_i heq
      rw [heq]
    · rw [List.append_nil]
  cases op with
  | makeClass name => exact (List.append_nil _).symm
  | addSuperclass id super => exact (List.append_nil _).symm
  | defineClass name supers =>
      have hgenerics := generics_defineClass name supers r
      show ((defineClass name supers r).2.getGeneric generic).methods = _ ++ []
      unfold getGeneric
      rw [hgenerics, List.append_nil]
  | makeGeneric name =>
      show ((makeGeneric name r).2.getGeneric generic).methods = _ ++ []
      rw [getGeneric_makeGeneric_of_lt hgeneric, List.append_nil]
  | addMethod id closure specializers => exact hadd id closure specializers hop.1
  | putMethod c id closure => exact hadd id closure [c] hop.2
  | bootstrap =>
      obtain ⟨core, hcore⟩ := hr.core
      rw [apply_bootstrap_of_core hcore]
      exact (List.append_nil _).symm

/-- Generic functions do not depend on the core. -/
theorem getGeneric_withCore (r : Registry) (core : Core) (generic : GenericId) :
    (r.withCore core).getGeneric generic = r.getGeneric generic := rfl

/-- Right after a bootstrap `print-object` has the core methods only. -/
theorem onlyCorePrinters_bootstrap (hnone : r.core = none) :
    (Registration.bootstrap.apply r).OnlyCorePrinters := by
  rw [apply_bootstrap_of_none hnone, (coreAt_bootstrap r).onlyCorePrinters_iff]
  have hname : coreGenericNames[5]? = some ⟨"print-object"⟩ := rfl
  rw [getGeneric_withCore, methods_declared hname]

/-- From then on it has the core methods only as long as no registration adds one to it. -/
theorem Booted.onlyCorePrinters_apply_iff (hr : r.Booted) (hop : op.Admissible r) :
    (op.apply r).OnlyCorePrinters ↔
      r.OnlyCorePrinters ∧ ∀ core ∈ r.core, op.addedTo core.generics.printObject = [] := by
  obtain ⟨n, m, hat⟩ := hr.coreAt
  obtain ⟨hgeneric, -, others, hmethods⟩ := hat.generics 5 _ rfl
  have hcore : (∀ core ∈ r.core, op.addedTo core.generics.printObject = []) ↔
      op.addedTo ⟨m + 5⟩ = [] := by
    rw [hat.core]
    simp [coreFrom, coreGenericsFrom]
  -- The methods of the bootstrap stay in front, so that any other stands behind them.
  rw [(hat.keep (keeps_apply hr hop)).onlyCorePrinters_iff, hat.onlyCorePrinters_iff, hcore,
    methods_apply hr hop hgeneric, ← hmethods]
  simp

/-- All core methods of `print-object`, in the order of their registration, with the places of the
classes that they ask for. -/
def printers : List (Nat × CoreMethod) :=
  syntaxPrinters ++
    [(3, .printSymbol), (4, .printString), (5, .printNumber), (2, .printNil), (0, .printObject)]

theorem coreEntries_printObject (n m : Nat) :
    coreEntries (coreFrom n m) ⟨m + 5⟩ = printers.map (printerEntry n) := by
  simp [printers, syntaxPrinters, printerEntry, coreEntries, entriesFor, coreMethods, coreFrom,
    coreGenericsFrom, coreClassesFrom]

/-! ## Selecting a printer -/

theorem CoreAt.methods_printObject (hat : CoreAt r n m) (honly : r.OnlyCorePrinters) :
    (r.getGeneric ⟨m + 5⟩).methods = printers.map (printerEntry n) :=
  (hat.onlyCorePrinters_iff.mp honly).trans (coreEntries_printObject n m)

/-- The printer of a line applies to a value when the class of the value is a subclass. -/
theorem Booted.appliesTo_printerEntry_iff (hr : r.Booted) (hc : r.classOf v = .ok c)
    (line : Nat × CoreMethod) :
    r.AppliesTo (printerEntry n line) [v] ↔ r.isSubclass c ⟨n + line.1⟩ = true := by
  obtain ⟨c', hplace, hc'⟩ := hr.exists_classOf v
  cases hc.symm.trans hc'
  rw [isSubclass_iff_inherits hr.consistent.supers hplace]
  refine appliesTo_receiver.trans ⟨?_, fun hinherits => ⟨c, hc, hinherits⟩⟩
  rintro ⟨c', hc', hinherits⟩
  cases hc.symm.trans hc'
  exact hinherits

/-- A value is received by the first core method for a class that its class is a subclass of. -/
theorem Booted.select_printer (hr : r.Booted) (hat : CoreAt r n m) (honly : r.OnlyCorePrinters)
    (hc : r.classOf v = .ok c) {line : Nat × CoreMethod}
    (hline : (printers.find? fun line => r.isSubclass c ⟨n + line.1⟩) = some line) :
    ∃ i, r.select ⟨m + 5⟩ 1 0 [v] = .ok ⟨⟨"print-object"⟩, i, ⟨.core line.2, .nil⟩⟩ := by
  have hmethods := hat.methods_printObject honly
  obtain ⟨hsubclass, i, hi, rfl, hearlier⟩ := List.find?_eq_some_iff_getElem.mp hline
  have hentry : (r.getGeneric ⟨m + 5⟩).methods[i]? = some (printerEntry n printers[i]) := by
    rw [hmethods, List.getElem?_map, List.getElem?_eq_getElem hi]
    rfl
  have hfirst : r.FirstApplicable ⟨m + 5⟩ [v] i (printerEntry n printers[i]) := by
    refine ⟨hentry, (hr.appliesTo_printerEntry_iff hc printers[i]).mpr hsubclass, ?_⟩
    -- The class is no subclass of what an earlier printer asks for, so that it does not apply.
    intro j hj earlier hfound happlies
    have hlt : j < printers.length := hj.trans hi
    rw [hmethods, List.getElem?_map, List.getElem?_eq_getElem hlt] at hfound
    obtain rfl := Option.some.inj hfound
    have hnot := hearlier j hj
    rw [(hr.appliesTo_printerEntry_iff hc printers[j]).mp happlies] at hnot
    cases hnot
  refine ⟨i, ?_⟩
  rw [hr.select_of_firstApplicable hfirst, (hat.generics 5 _ rfl).2.1]
  rfl

/-- A value of no such class is received by no method. -/
theorem Booted.select_no_printer (hr : r.Booted) (hat : CoreAt r n m) (honly : r.OnlyCorePrinters)
    (hc : r.classOf v = .ok c)
    (hnone : (printers.find? fun line => r.isSubclass c ⟨n + line.1⟩) = none) :
    r.select ⟨m + 5⟩ 1 0 [v] =
      .error (.dispatch ⟨"print-object"⟩ [(r.getClass c).name]) := by
  have hnot : ∀ entry ∈ (r.getGeneric ⟨m + 5⟩).methods, ¬ r.AppliesTo entry [v] := by
    intro entry hentry happlies
    rw [hat.methods_printObject honly] at hentry
    obtain ⟨line, hline, rfl⟩ := List.mem_map.mp hentry
    exact List.find?_eq_none.mp hnone line hline
      ((hr.appliesTo_printerEntry_iff hc line).mp happlies)
  obtain ⟨c', hc', hselect⟩ := hr.select_of_none_receiver hnot
  cases hc.symm.trans hc'
  rw [hselect, (hat.generics 5 _ rfl).2.1]

/-! ### Core classes that are left alone -/

/-- The class of a value that is no object of a user's class. -/
theorem CoreAt.classOf_of_ne_object (hat : CoreAt r n m) (hr : r.Consistent)
    (hobject : ∀ wrapper payload, v ≠ .object wrapper payload) :
    r.classOf v = .ok (coreClassOf (coreClassesFrom n) v) := by
  obtain ⟨i, hi, hplace⟩ := exists_coreClassOf_eq n v
  have hwrapper : r.wrapperIn (coreFrom n m) v = ⟨n + i⟩ := by
    rcases object_or_wrapperIn_eq v with ⟨wrapper, payload, rfl⟩ | hcore
    · exact absurd rfl (hobject wrapper payload)
    · rw [hcore, show (coreFrom n m).classes = coreClassesFrom n from rfl, hplace]
      exact hr.wrapper _ (hat.hasClass hi)
  rw [classOf_eq hat.core, hwrapper, hplace]
  exact congrArg Except.ok (hr.classOfWrapper ⟨n + i⟩ (hat.hasClass hi))

theorem CoreExact.supers_plain (hat : CoreExact r n m) {i : Nat} (hlow : 2 ≤ i) (hhigh : i ≤ 8) :
    r.supers ⟨n + i⟩ = [⟨n⟩] := by
  interval_cases i <;> exact hat.supers _ _ _ rfl

/-- A core class that is no class of syntax objects inherits from itself and from `<object>`. -/
theorem CoreExact.eq_of_inherits_plain (hat : CoreExact r n m) {i : Nat} (hlow : 2 ≤ i)
    (hhigh : i ≤ 8) (hinherits : r.Inherits ⟨n + i⟩ c) : c = ⟨n + i⟩ ∨ c = ⟨n⟩ := by
  have hobject : r.supers ⟨n⟩ = [] := hat.supers 0 _ _ rfl
  induction hinherits with
  | refl => exact .inl rfl
  | tail _ hedge ih =>
      unfold IsDirectSuper at hedge
      rcases ih with rfl | rfl
      · rw [hat.supers_plain hlow hhigh] at hedge
        exact .inr (List.mem_singleton.mp hedge)
      · rw [hobject] at hedge
        exact absurd hedge List.not_mem_nil

theorem CoreExact.isSubclass_eq (hat : CoreExact r n m) (hr : r.Booted) {i : Nat} (hlow : 2 ≤ i)
    (hhigh : i ≤ 8) (j : Nat) : r.isSubclass ⟨n + i⟩ ⟨n + j⟩ = (j == i || j == 0) := by
  have hplace : r.HasClass ⟨n + i⟩ := hat.hasClass (by omega)
  rw [Bool.eq_iff_iff, isSubclass_iff_inherits hr.consistent.supers hplace, Bool.or_eq_true,
    beq_iff_eq, beq_iff_eq]
  constructor
  · intro hinherits
    have hends := hat.eq_of_inherits_plain hlow hhigh hinherits
    simp only [ClassId.mk.injEq] at hends
    omega
  · rintro (rfl | rfl)
    · exact .refl
    · refine .single ?_
      unfold IsDirectSuper
      rw [hat.supers_plain hlow hhigh]
      exact List.mem_singleton_self _

theorem CoreExact.find?_printers (hat : CoreExact r n m) (hr : r.Booted) {i : Nat} (hlow : 2 ≤ i)
    (hhigh : i ≤ 8) : (printers.find? fun line => r.isSubclass ⟨n + i⟩ ⟨n + line.1⟩) =
      printers.find? fun line => line.1 == i || line.1 == 0 := by
  simp only [hat.isSubclass_eq hr hlow hhigh]

/-! ## What objects are printed as -/

/-- The core classes that `print-object` has a method for, in the order of registration, with what
is printed for an object of a class with this name that is received there. -/
def objectOutcomes (classes : CoreClasses) (className : Symbol) :
    List (ClassId × Except Error String) :=
  [ (classes.syntaxList, .error (.identity "syntax list" "instance")),
    (classes.syntaxSymbol, .error (.identity "syntax symbol" "instance")),
    (classes.syntaxString, .error (.identity "syntax object" "instance")),
    (classes.syntaxNumber, .error (.identity "syntax object" "instance")),
    (classes.symbol, .error (.identity "symbol" "instance")),
    (classes.string, .error (.identity "string" "instance")),
    (classes.number, .error (.identity "number" "instance")),
    (classes.nil, .ok "nil"),
    (classes.object, .ok ("#<" ++ className.name ++ ">")) ]

/-- What is printed for an object: the outcome for the first of these classes that its class is a
subclass of, and an error of dispatch if it is a subclass of none. -/
def objectOutcome (r : Registry) (core : Core) (id : ClassId) : Except Error String :=
  match (objectOutcomes core.classes (r.getClass id).name).find?
      fun (k, _) => r.isSubclass id k with
  | some (_, outcome) => outcome
  | none => .error (.dispatch ⟨"print-object"⟩ [(r.getClass id).name])

theorem objectOutcomes_eq (n : Nat) (className : Symbol) :
    objectOutcomes (coreClassesFrom n) className =
      printers.map fun line => (⟨n + line.1⟩, line.2.textOfObject className) := rfl

theorem objectOutcome_eq (r : Registry) (n m : Nat) (id : ClassId) :
    r.objectOutcome (coreFrom n m) id =
      match printers.find? fun line => r.isSubclass id ⟨n + line.1⟩ with
      | some line => line.2.textOfObject (r.getClass id).name
      | none => .error (.dispatch ⟨"print-object"⟩ [(r.getClass id).name]) := by
  have hfind : ((objectOutcomes (coreFrom n m).classes (r.getClass id).name).find?
      fun (k, _) => r.isSubclass id k) =
      (printers.find? fun line => r.isSubclass id ⟨n + line.1⟩).map
        fun line => (⟨n + line.1⟩, line.2.textOfObject (r.getClass id).name) := by
    rw [show (coreFrom n m).classes = coreClassesFrom n from rfl, objectOutcomes_eq,
      List.find?_map]
    rfl
  unfold objectOutcome
  rw [hfind]
  cases printers.find? fun line => r.isSubclass id ⟨n + line.1⟩ <;> rfl

end Registry

namespace ObjectSystem

open Registry

variable {sys : ObjectSystem} {n m : Nat} {h : Heap} {v : Value}

/-- The method for all values names the class. -/
theorem answers_printObject (perform : Request → Exec Value) {r : Registry} {c : ClassId}
    (hclass : r.classOf v = .ok c) (h : Heap) :
    ((CoreMethod.printObject.method r .nil 1 0 [v]).run perform).Answers h
      (.ok (.string ("#<" ++ (r.getClass c).name.name ++ ">"))) h := by
  rw [CoreMethod.method_printObject hclass]
  exact Exec.answers_pure _ h

/-- What a core method answers to an object alone. -/
theorem answers_textOfObject (method : CoreMethod) {r : Registry} {wrapper : WrapperId}
    {payload : Value} {id : ClassId} (hclass : r.classOf (.object wrapper payload) = .ok id)
    (h : Heap) :
    ∃ result, (∀ perform, ((method.method r .nil 1 0 [.object wrapper payload]).run
        perform).Answers h result h) ∧
      (result >>= Value.asString) = method.textOfObject (r.getClass id).name := by
  cases method
  case printObject => exact ⟨_, fun perform => answers_printObject perform hclass h, rfl⟩
  all_goals exact ⟨_, fun _ log => ⟨log, rfl⟩, rfl⟩

/-- The answer to a send is what the method that is selected answers. -/
theorem answers_sendRaw_of_select {generic : GenericId} {npos nkey : UInt64} {args : List Value}
    {selection : Selection} (hselect : sys.registry.select generic npos nkey args = .ok selection)
    {result : Except Error Value}
    (hbody : ∀ perform, (sys.enter perform selection.closure npos nkey args).Answers h result h) :
    (sys.sendRaw generic npos nkey args).Answers h result h := by
  intro log
  rw [runFrom_sendRaw_ok hselect]
  exact hbody _ _

/-- Printing asks `print-object` and takes its answer for a string. -/
theorem answers_print_of_sendRaw (hat : CoreAt sys.registry n m) {result : Except Error Value}
    (hsend : (sys.sendRaw ⟨m + 5⟩ 1 0 [v]).Answers h result h) :
    (sys.print v).Answers h (result >>= Value.asString) h := by
  unfold print
  rw [hat.getCore_eq]
  refine (Exec.answers_ofExcept (.ok (coreFrom n m)) h).bind_ok ?_
  exact hsend.bind fun printed _ => Exec.answers_ofExcept printed.asString h

/-- An object is printed by the first printer for a class that its class is a subclass of. -/
theorem answers_print_object (hr : sys.registry.Booted) (hat : CoreAt sys.registry n m)
    (honly : sys.registry.OnlyCorePrinters) {id : ClassId} (hid : sys.registry.HasClass id)
    (payload : Value) (h : Heap) :
    (sys.print (sys.registry.makeObject id payload)).Answers h
      (sys.registry.objectOutcome (coreFrom n m) id) h := by
  have hclass : sys.registry.classOf (sys.registry.makeObject id payload) = .ok id :=
    (Retains.refl sys.registry).classOf_makeObject hr.consistent hat.core hid payload
  rw [objectOutcome_eq]
  cases hline : printers.find? fun line => sys.registry.isSubclass id ⟨n + line.1⟩ with
  | none =>
      have hselect := hr.select_no_printer hat honly hclass hline
      exact answers_print_of_sendRaw hat fun log =>
        ⟨log, runFrom_sendRaw_error hselect ⟨h, log⟩⟩
  | some line =>
      obtain ⟨i, hselect⟩ := hr.select_printer hat honly hclass hline
      obtain ⟨result, hbody, htext⟩ := answers_textOfObject line.2 hclass h
      show (sys.print _).Answers h (line.2.textOfObject _) h
      rw [← htext]
      exact answers_print_of_sendRaw hat (answers_sendRaw_of_select hselect hbody)

/-! ## Values that are no objects -/

/-- A value that is neither an object nor a syntax object is printed by the method of its class, or
by the method for all values. -/
theorem exists_plain_printer (hobject : ∀ wrapper payload, v ≠ .object wrapper payload)
    (hstx : ∀ x, v ≠ .stx x) {r : Registry} {n : Nat}
    (hclass : r.classOf v = .ok (coreClassOf (coreClassesFrom n) v)) (h : Heap) :
    ∃ i line, 2 ≤ i ∧ i ≤ 8 ∧ coreClassOf (coreClassesFrom n) v = ⟨n + i⟩ ∧
      (printers.find? fun line => line.1 == i || line.1 == 0) = some line ∧
      ∃ text, ∀ perform, ((line.2.method r .nil 1 0 [v]).run perform).Answers h
        (.ok (.string text)) h := by
  cases v with
  | nil => exact ⟨2, _, by decide, by decide, rfl, rfl, _, fun _ log => ⟨log, rfl⟩⟩
  | symbol s => exact ⟨3, _, by decide, by decide, rfl, rfl, _, fun _ log => ⟨log, rfl⟩⟩
  | string text => exact ⟨4, _, by decide, by decide, rfl, rfl, _, fun _ log => ⟨log, rfl⟩⟩
  | number k => exact ⟨5, _, by decide, by decide, rfl, rfl, _, fun _ log => ⟨log, rfl⟩⟩
  | stx x => exact absurd rfl (hstx x)
  | closure code env =>
      exact ⟨6, _, by decide, by decide, rfl, rfl, _, fun perform =>
        answers_printObject perform hclass h⟩
  | classRef id =>
      exact ⟨7, _, by decide, by decide, rfl, rfl, _, fun perform =>
        answers_printObject perform hclass h⟩
  | genericRef id =>
      exact ⟨8, _, by decide, by decide, rfl, rfl, _, fun perform =>
        answers_printObject perform hclass h⟩
  | object wrapper payload => exact absurd rfl (hobject wrapper payload)

theorem answers_print_plain (hr : sys.registry.Booted) (hat : CoreExact sys.registry n m)
    (honly : sys.registry.OnlyCorePrinters)
    (hobject : ∀ wrapper payload, v ≠ .object wrapper payload) (hstx : ∀ x, v ≠ .stx x)
    (h : Heap) : ∃ text, (sys.print v).Answers h (.ok text) h := by
  have hclass := hat.classOf_of_ne_object hr.consistent hobject
  obtain ⟨i, line, hlow, hhigh, hplace, hfind, text, hbody⟩ :=
    exists_plain_printer hobject hstx hclass h
  rw [hplace] at hclass
  rw [← hat.find?_printers hr hlow hhigh] at hfind
  obtain ⟨index, hselect⟩ := hr.select_printer hat.toCoreAt honly hclass hfind
  exact ⟨text, answers_print_of_sendRaw hat.toCoreAt (answers_sendRaw_of_select hselect hbody)⟩

/-- What printing can print, as long as `print-object` has the core methods only.

* An object is printed as `nil` or by the name of its class, or refused, by the first of nine core
  classes that its class is a subclass of; if it is a subclass of none, there is an error of
  dispatch.  It is the same for every object of the class, and the lists stay as they are.
* If moreover no core class has got a superclass since the bootstrap, then everything else is
  printed, but for syntax objects that contain themselves. -/
theorem print_by_core_methods {sys : ObjectSystem} (hsys : sys.registry.Booted)
    (honly : sys.registry.OnlyCorePrinters) :
    ∃ core, sys.registry.core = some core ∧
      (∀ id payload s, sys.registry.HasClass id →
        ∃ s', (sys.print (sys.registry.makeObject id payload)).runFrom s =
          some (sys.registry.objectOutcome core id, s') ∧ s'.heap = s.heap) ∧
      (sys.registry.CoreIntact → ∀ (v : Value) (s : Store),
        (∀ wrapper payload, v ≠ .object wrapper payload) →
        (∀ x, v = .stx x → s.heap.Acyclic x) →
        ∃ text s', (sys.print v).runFrom s = some (.ok text, s') ∧ s'.heap = s.heap) := by
  obtain ⟨n, m, hat⟩ := hsys.coreAt
  refine ⟨coreFrom n m, hat.core, fun id payload s hid => ?_,
    fun hintact v s hobject hacyclic => ?_⟩
  · obtain ⟨log, hrun⟩ := answers_print_object hsys hat honly hid payload s.heap s.log
    exact ⟨⟨s.heap, log⟩, hrun, rfl⟩
  · have hprint : ∃ text, (sys.print v).Answers s.heap (.ok text) s.heap := by
      by_cases hstx : ∃ x, v = .stx x
      · obtain ⟨x, rfl⟩ := hstx
        obtain ⟨d, hx⟩ := Heap.exists_unfolds_iff_acyclic.mpr (hacyclic x rfl)
        exact ⟨d.toText, answers_print hintact hx⟩
      · obtain ⟨n, m, hexact⟩ := hintact.exists_coreExact
        exact answers_print_plain hsys hexact honly hobject
          (fun x hx => hstx ⟨x, hx⟩) s.heap
    obtain ⟨text, hanswers⟩ := hprint
    obtain ⟨log, hrun⟩ := hanswers s.log
    exact ⟨text, ⟨s.heap, log⟩, hrun, rfl⟩

/-- Three classes of a user: one below `<nil>`, one below that and below the lists, and one that is
below itself only. -/
def oddSystem : ObjectSystem :=
  ⟨Registration.applyAll
    [.defineClass ⟨"hollow"⟩ [⟨0⟩, ⟨2⟩], .defineClass ⟨"roll"⟩ [⟨13⟩, ⟨12⟩], .makeClass ⟨"lone"⟩,
      .addSuperclass ⟨15⟩ ⟨15⟩] coreOnly,
    fun _ _ env _ _ _ => pure env⟩

/-- The first two objects inherit from `<object>` too, but are not printed by their class. -/
theorem print_odd_objects :
    oddSystem.registry.Booted ∧ oddSystem.registry.OnlyCorePrinters ∧
      oddSystem.registry.CoreIntact ∧
      (∀ s, ∃ s', (oddSystem.print (.object ⟨13⟩ .nil)).runFrom s = some (.ok "nil", s')) ∧
      (∀ s, ∃ s', (oddSystem.print (.object ⟨14⟩ .nil)).runFrom s =
        some (.error (.identity "syntax list" "instance"), s')) ∧
      (∀ s, ∃ s', (oddSystem.print (.object ⟨15⟩ .nil)).runFrom s =
        some (.error (.dispatch ⟨"print-object"⟩ [⟨"lone"⟩]), s')) ∧
      ∀ s, ∃ text s', (oddSystem.print (.classRef ⟨13⟩)).runFrom s = some (.ok text, s') := by
  have hintact : oddSystem.registry.CoreIntact :=
    coreIntact_coreOnly.steps (by decide +kernel) (by decide +kernel)
  have honly : oddSystem.registry.OnlyCorePrinters :=
    ⟨coreFrom 0 0, by decide +kernel, by decide +kernel⟩
  obtain ⟨core, hcore, hobjects, hothers⟩ := print_by_core_methods hintact.booted honly
  have hplace : oddSystem.registry.core = some (coreFrom 0 0) := by decide +kernel
  obtain rfl : core = coreFrom 0 0 := Option.some.inj (hcore.symm.trans hplace)
  have hprint (id : ClassId) (wrapper : WrapperId) (outcome : Except Error String)
      (hid : oddSystem.registry.HasClass id)
      (hwrapper : oddSystem.registry.makeObject id .nil = .object wrapper .nil)
      (houtcome : oddSystem.registry.objectOutcome (coreFrom 0 0) id = outcome) (s : Store) :
      ∃ s', (oddSystem.print (.object wrapper .nil)).runFrom s = some (outcome, s') := by
    obtain ⟨s', hrun, -⟩ := hobjects id .nil s hid
    rw [hwrapper, houtcome] at hrun
    exact ⟨s', hrun⟩
  refine ⟨hintact.booted, honly, hintact, ?_, ?_, ?_, fun s => ?_⟩
  · exact hprint ⟨13⟩ ⟨13⟩ _ (by decide +kernel) (by decide +kernel) (by decide +kernel)
  · exact hprint ⟨14⟩ ⟨14⟩ _ (by decide +kernel) (by decide +kernel) (by decide +kernel)
  · exact hprint ⟨15⟩ ⟨15⟩ _ (by decide +kernel) (by decide +kernel) (by decide +kernel)
  · obtain ⟨text, s', hrun, -⟩ := hothers hintact (.classRef ⟨13⟩) s nofun nofun
    exact ⟨text, s', hrun⟩

end ObjectSystem
end LispFront
