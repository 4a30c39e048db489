import LispFront.Proofs.Object.Growth

/-!
# What the bootstrap puts in place

The bootstrap makes the core classes and the core generic functions one after the other and then
registers the core methods.  `coreClassTable` and `coreGenericNames` list what it makes, so that the
effect of the bootstrap is a fact about two lists of new entries.  `Registry.CoreAt` says where the
core stands afterwards.  It holds right after every successful bootstrap, whatever was registered
before (`coreAt_bootstrap`), and no registration takes it away again (`CoreAt.keep`).
-/

namespace LispFront
namespace Registry

/-! ## A class with its superclasses -/

theorem getClass_forM_addSuperclass {r : Registry} {id : ClassId} (h : r.HasClass id)
    (supers : List ClassId) (other : ClassId) :
    ((supers.forM (addSuperclass id) : StateM Registry Unit) r).2.getClass other =
      { r.getClass other with
        supers := if other = id then r.supers id ++ supers else r.supers other } := by
  induction supers generalizing r with
  | nil =>
      show r.getClass other = _
      split
      · rename_i heq
        subst heq
        simp [Registry.supers]
      · rfl
  | cons s rest ih =>
      have hnext : (addSuperclass id s r).2.HasClass id := by simpa [HasClass] using h
      show ((rest.forM (addSuperclass id) : StateM Registry Unit)
        (addSuperclass id s r).2).2.getClass other = _
      rw [ih hnext]
      unfold Registry.supers
      rw [getClass_addSuperclass h s other, getClass_addSuperclass h s id]
      by_cases hother : other = id
      · simp [hother, Registry.supers]
      · simp [hother, Registry.supers]

theorem tables_forM_addSuperclass (supers : List ClassId) (id : ClassId) (r : Registry) :
    let r' := ((supers.forM (addSuperclass id) : StateM Registry Unit) r).2
    r'.classes.size = r.classes.size ∧ r'.generics = r.generics := by
  induction supers generalizing r with
  | nil => exact ⟨rfl, rfl⟩
  | cons s rest ih =>
      obtain ⟨hclasses, hgenerics⟩ := ih (addSuperclass id s r).2
      exact ⟨hclasses.trans (size_classes_addSuperclass id s r), hgenerics⟩

@[simp] theorem size_classes_defineClass (name : Symbol) (supers : List ClassId) (r : Registry) :
    (defineClass name supers r).2.classes.size = r.classes.size + 1 := by
  have h := tables_forM_addSuperclass supers ⟨r.classes.size⟩ (makeClass name r).2
  exact h.1.trans (size_classes_makeClass name r)

@[simp] theorem generics_defineClass (name : Symbol) (supers : List ClassId) (r : Registry) :
    (defineClass name supers r).2.generics = r.generics := by
  have h := tables_forM_addSuperclass supers ⟨r.classes.size⟩ (makeClass name r).2
  exact h.2

theorem hasClass_new (name : Symbol) (r : Registry) :
    (makeClass name r).2.HasClass ⟨r.classes.size⟩ := by
  simp [HasClass]

theorem getClass_defineClass_self (name : Symbol) (supers : List ClassId) (r : Registry) :
    (defineClass name supers r).2.getClass ⟨r.classes.size⟩ =
      ⟨name, supers, ⟨r.wrappers.size⟩⟩ := by
  have hself := getClass_makeClass_self name r
  rw [makeClass_fst] at hself
  have h := getClass_forM_addSuperclass (hasClass_new name r) supers ⟨r.classes.size⟩
  simp only [Registry.supers, hself, if_true, List.nil_append] at h
  exact h

theorem getClass_defineClass_of_lt {r : Registry} {id : ClassId} (h : r.HasClass id)
    (name : Symbol) (supers : List ClassId) :
    (defineClass name supers r).2.getClass id = r.getClass id := by
  have hne : id ≠ ⟨r.classes.size⟩ := by
    rintro rfl
    exact Nat.lt_irrefl _ h
  have hall := getClass_forM_addSuperclass (hasClass_new name r) supers id
  simp only [Registry.supers, hne, if_false, getClass_makeClass_of_lt h name] at hall
  exact hall

theorem grows_forM_addSuperclass {r : Registry} {id : ClassId} (hid : r.HasClass id)
    {supers : List ClassId} (hsupers : ∀ s ∈ supers, r.HasClass s) :
    Grows r ((supers.forM (addSuperclass id) : StateM Registry Unit) r).2 := by
  induction supers generalizing r with
  | nil => exact .refl
  | cons s rest ih =>
      have hs : r.HasClass s := hsupers s List.mem_cons_self
      have hstep : Step r (addSuperclass id s r).2 := .addSuperclass hid hs
      refine .head hstep (ih (hstep.keeps.hasClass hid) ?_)
      intro s' hs'
      exact hstep.keeps.hasClass (hsupers s' (List.mem_cons_of_mem _ hs'))

/-- A new class with existing superclasses is made by elementary registrations. -/
theorem grows_defineClass {r : Registry} (name : Symbol) {supers : List ClassId}
    (hsupers : ∀ s ∈ supers, r.HasClass s) : Grows r (defineClass name supers r).2 := by
  have hstep : Step r (makeClass name r).2 := .makeClass name
  refine .head hstep (grows_forM_addSuperclass (hasClass_new name r) ?_)
  intro s hs
  exact hstep.keeps.hasClass (hsupers s hs)

/-! ## New entries one after the other -/

/-- Makes classes in order, each with its direct superclasses. -/
def defineAll : List (Symbol × List ClassId) → Registry → Registry
  | [], r => r
  | (name, supers) :: rest, r => defineAll rest (defineClass name supers r).2

/-- Makes generic functions in order. -/
def makeAll : List Symbol → Registry → Registry
  | [], r => r
  | name :: rest, r => makeAll rest (makeGeneric name r).2

/-- Every superclass in the table of new classes stands before the class, when the first one gets
the place `n`. -/
def SupersBefore : Nat → List (Symbol × List ClassId) → Prop
  | _, [] => True
  | n, (_, supers) :: rest => (∀ s ∈ supers, s.index < n) ∧ SupersBefore (n + 1) rest

theorem grows_defineAll {table : List (Symbol × List ClassId)} {r : Registry}
    (h : SupersBefore r.classes.size table) : Grows r (defineAll table r) := by
  induction table generalizing r with
  | nil => exact .refl
  | cons entry rest ih =>
      obtain ⟨name, supers⟩ := entry
      obtain ⟨hsupers, hrest⟩ := h
      refine .trans (grows_defineClass name hsupers) (ih ?_)
      rw [size_classes_defineClass]
      exact hrest

theorem grows_makeAll (names : List Symbol) (r : Registry) : Grows r (makeAll names r) := by
  induction names generalizing r with
  | nil => exact .refl
  | cons name rest ih => exact .head (.makeGeneric name) (ih _)

theorem size_classes_defineAll (table : List (Symbol × List ClassId)) (r : Registry) :
    (defineAll table r).classes.size = r.classes.size + table.length := by
  induction table generalizing r with
  | nil => rfl
  | cons entry rest ih =>
      simp only [defineAll, ih, size_classes_defineClass, List.length_cons]
      omega

theorem generics_defineAll (table : List (Symbol × List ClassId)) (r : Registry) :
    (defineAll table r).generics = r.generics := by
  induction table generalizing r with
  | nil => rfl
  | cons entry rest ih => simp only [defineAll, ih, generics_defineClass]

theorem size_generics_makeAll (names : List Symbol) (r : Registry) :
    (makeAll names r).generics.size = r.generics.size + names.length := by
  induction names generalizing r with
  | nil => rfl
  | cons name rest ih =>
      simp only [makeAll, ih, size_generics_makeGeneric, List.length_cons]
      omega

theorem classes_makeAll (names : List Symbol) (r : Registry) :
    (makeAll names r).classes = r.classes := by
  induction names generalizing r with
  | nil => rfl
  | cons name rest ih => exact ih (makeGeneric name r).2

theorem getClass_defineAll_of_lt {table : List (Symbol × List ClassId)} {r : Registry}
    {id : ClassId} (h : r.HasClass id) : (defineAll table r).getClass id = r.getClass id := by
  induction table generalizing r with
  | nil => rfl
  | cons entry rest ih =>
      have hnext : (defineClass entry.1 entry.2 r).2.HasClass id := by
        unfold HasClass at h ⊢
        rw [size_classes_defineClass]
        omega
      exact (ih hnext).trans (getClass_defineClass_of_lt h _ _)

/-- A new class has the name and the superclasses of its line of the table. -/
theorem getClass_defineAll {table : List (Symbol × List ClassId)} {r : Registry} {i : Nat}
    {name : Symbol} {supers : List ClassId} (h : table[i]? = some (name, supers)) :
    let c := (defineAll table r).getClass ⟨r.classes.size + i⟩
    c.name = name ∧ c.supers = supers := by
  induction table generalizing r i with
  | nil => simp at h
  | cons entry rest ih =>
      cases i with
      | zero =>
          simp only [List.getElem?_cons_zero, Option.some.injEq] at h
          subst h
          have hplace : (defineClass name supers r).2.HasClass ⟨r.classes.size⟩ := by
            simp [HasClass]
          simp only [defineAll, Nat.add_zero]
          rw [getClass_defineAll_of_lt hplace, getClass_defineClass_self]
          exact ⟨rfl, rfl⟩
      | succ i =>
          rw [List.getElem?_cons_succ] at h
          have hrest := ih (r := (defineClass entry.1 entry.2 r).2) h
          rw [size_classes_defineClass, Nat.add_right_comm] at hrest
          exact hrest

theorem getGeneric_makeAll_of_lt {names : List Symbol} {r : Registry} {id : GenericId}
    (h : r.HasGeneric id) : (makeAll names r).getGeneric id = r.getGeneric id := by
  induction names generalizing r with
  | nil => rfl
  | cons name rest ih =>
      have hnext : (makeGeneric name r).2.HasGeneric id := by
        unfold HasGeneric at h ⊢
        rw [size_generics_makeGeneric]
        omega
      exact (ih hnext).trans (getGeneric_makeGeneric_of_lt h _)

/-- A new generic function has the name of its line of the table and no methods. -/
theorem getGeneric_makeAll {names : List Symbol} {r : Registry} {i : Nat} {name : Symbol}
    (h : names[i]? = some name) :
    (makeAll names r).getGeneric ⟨r.generics.size + i⟩ = ⟨name, []⟩ := by
  induction names generalizing r i with
  | nil => simp at h
  | cons first rest ih =>
      cases i with
      | zero =>
          simp only [List.getElem?_cons_zero, Option.some.injEq] at h
          subst h
          have hplace : (makeGeneric first r).2.HasGeneric ⟨r.generics.size⟩ := by
            simp [HasGeneric]
          simp only [makeAll, Nat.add_zero]
          rw [getGeneric_makeAll_of_lt hplace]
          exact getGeneric_makeGeneric_self first r
      | succ i =>
          rw [List.getElem?_cons_succ] at h
          have hrest := ih (r := (makeGeneric first r).2) h
          rw [size_generics_makeGeneric, Nat.add_right_comm] at hrest
          exact hrest

/-! ## The core -/

/-- The core classes when the first of them has the place `n`. -/
def coreClassesFrom (n : Nat) : CoreClasses where
  object := ⟨n⟩
  syntaxObject := ⟨n + 1⟩
  nil := ⟨n + 2⟩
  symbol := ⟨n + 3⟩
  string := ⟨n + 4⟩
  number := ⟨n + 5⟩
  closure := ⟨n + 6⟩
  classObject := ⟨n + 7⟩
  generic := ⟨n + 8⟩
  syntaxSymbol := ⟨n + 9⟩
  syntaxString := ⟨n + 10⟩
  syntaxNumber := ⟨n + 11⟩
  syntaxList := ⟨n + 12⟩

/-- The core generic functions when the first of them has the place `n`. -/
def coreGenericsFrom (n : Nat) : CoreGenerics where
  add := ⟨n⟩
  first := ⟨n + 1⟩
  second := ⟨n + 2⟩
  third := ⟨n + 3⟩
  fourth := ⟨n + 4⟩
  printObject := ⟨n + 5⟩

/-- The core with its first class and its first generic function at these places. -/
def coreFrom (n m : Nat) : Core := ⟨coreClassesFrom n, coreGenericsFrom m⟩

/-- The names and the direct superclasses of the core classes, in order, when the first of them has
the place `n`. -/
def coreClassTable (n : Nat) : List (Symbol × List ClassId) :=
  [ (⟨"<object>"⟩, []), (⟨"<syntax>"⟩, [⟨n⟩]), (⟨"<nil>"⟩, [⟨n⟩]), (⟨"<symbol>"⟩, [⟨n⟩]),
    (⟨"<string>"⟩, [⟨n⟩]), (⟨"<number>"⟩, [⟨n⟩]), (⟨"<closure>"⟩, [⟨n⟩]), (⟨"<class>"⟩, [⟨n⟩]),
    (⟨"<generic-function>"⟩, [⟨n⟩]), (⟨"<syntax-symbol>"⟩, [⟨n + 1⟩]),
    (⟨"<syntax-string>"⟩, [⟨n + 1⟩]), (⟨"<syntax-number>"⟩, [⟨n + 1⟩]),
    (⟨"<syntax-list>"⟩, [⟨n + 1⟩]) ]

/-- The names of the core generic functions, in order. -/
def coreGenericNames : List Symbol :=
  [⟨"add"⟩, ⟨"first"⟩, ⟨"second"⟩, ⟨"third"⟩, ⟨"fourth"⟩, ⟨"print-object"⟩]

theorem supersBefore_coreClassTable (n : Nat) : SupersBefore n (coreClassTable n) := by
  simp [coreClassTable, SupersBefore]
  omega

private theorem bind_run {α β : Type} (x : StateM Registry α) (f : α → StateM Registry β)
    (r : Registry) : (x >>= f) r = f (x r).1 (x r).2 := rfl

private theorem pure_run {α : Type} (a : α) (r : Registry) :
    (pure a : StateM Registry α) r = (a, r) := rfl

private theorem modify_run (f : Registry → Registry) (r : Registry) :
    (modify f : StateM Registry Unit) r = (⟨⟩, f r) := rfl

theorem declareClasses_eq (r : Registry) :
    declareClasses r =
      (coreClassesFrom r.classes.size, defineAll (coreClassTable r.classes.size) r) := by
  have hfst (name : Symbol) (supers : List ClassId) (r : Registry) :
      (defineClass name supers r).1 = ⟨r.classes.size⟩ := rfl
  -- Each class gets the number of classes before it as its place, so the places add up.
  simp only [declareClasses, bind_run, pure_run, hfst,
    size_classes_defineClass, coreClassesFrom, coreClassTable, defineAll, Nat.add_assoc]

theorem declareGenerics_eq (r : Registry) :
    declareGenerics r =
      (coreGenericsFrom r.generics.size, makeAll coreGenericNames r) := by
  have hfst (name : Symbol) (r : Registry) : (makeGeneric name r).1 = ⟨r.generics.size⟩ := rfl
  simp only [declareGenerics, bind_run, pure_run, hfst,
    size_generics_makeGeneric, coreGenericsFrom, coreGenericNames, makeAll, Nat.add_assoc]

/-! ## The core methods -/

/-- The methods that a table of core methods holds for one generic function, in order. -/
def entriesFor (id : GenericId) (table : List (ClassId × GenericId × CoreMethod)) :
    List MethodEntry :=
  (table.filter fun (_, generic, _) => generic == id).map
    fun (c, _, method) => ⟨⟨.core method, .nil⟩, [c]⟩

/-- The methods that a core generic function gets from the bootstrap. -/
def coreEntries (core : Core) (id : GenericId) : List MethodEntry :=
  entriesFor id (coreMethods core)

private def registerAll (table : List (ClassId × GenericId × CoreMethod)) : StateM Registry Unit :=
  table.forM fun (id, generic, method) => putMethod id generic ⟨.core method, .nil⟩

private theorem registerAll_cons (c : ClassId) (g : GenericId) (method : CoreMethod)
    (rest : List (ClassId × GenericId × CoreMethod)) (r : Registry) :
    registerAll ((c, g, method) :: rest) r =
      registerAll rest (addMethod g ⟨.core method, .nil⟩ [c] r).2 := rfl

theorem methods_registerAll {table : List (ClassId × GenericId × CoreMethod)} {r : Registry}
    (h : ∀ c g method, (c, g, method) ∈ table → r.HasGeneric g) (id : GenericId) :
    ((registerAll table r).2.getGeneric id).methods =
      (r.getGeneric id).methods ++ entriesFor id table := by
  induction table generalizing r with
  | nil =>
      show (r.getGeneric id).methods = _
      simp [entriesFor]
  | cons entry rest ih =>
      obtain ⟨c, g, method⟩ := entry
      have hg : r.HasGeneric g := h c g method List.mem_cons_self
      have hrest : ∀ c' g' method', (c', g', method') ∈ rest →
          (addMethod g ⟨.core method, .nil⟩ [c] r).2.HasGeneric g' := by
        intro c' g' method' hmem
        unfold HasGeneric
        rw [size_generics_addMethod]
        exact h c' g' method' (List.mem_cons_of_mem _ hmem)
      rw [registerAll_cons, ih hrest, getGeneric_addMethod hg]
      by_cases hid : id = g
      · subst hid
        simp [entriesFor]
      · have hne : (g == id) = false := by simpa using Ne.symm hid
        simp [entriesFor, hid, hne]

/-- Methods are no concern of the classes. -/
theorem classes_registerAll (table : List (ClassId × GenericId × CoreMethod)) (r : Registry) :
    (registerAll table r).2.classes = r.classes := by
  induction table generalizing r with
  | nil => rfl
  | cons entry rest ih =>
      obtain ⟨c, g, method⟩ := entry
      exact ih (addMethod g ⟨.core method, .nil⟩ [c] r).2

theorem grows_registerAll {table : List (ClassId × GenericId × CoreMethod)} {r : Registry}
    (h : ∀ c g method, (c, g, method) ∈ table → r.HasClass c ∧ r.HasGeneric g) :
    Grows r (registerAll table r).2 := by
  induction table generalizing r with
  | nil => exact .refl
  | cons entry rest ih =>
      obtain ⟨c, g, method⟩ := entry
      obtain ⟨hc, hg⟩ := h c g method List.mem_cons_self
      have hstep : Step r (addMethod g ⟨.core method, .nil⟩ [c] r).2 :=
        .addMethod hg _ (by simpa using hc)
      refine .head hstep (ih ?_)
      intro c' g' method' hmem
      obtain ⟨hc', hg'⟩ := h c' g' method' (List.mem_cons_of_mem _ hmem)
      exact ⟨hstep.keeps.hasClass hc', hstep.keeps.hasGeneric hg'⟩

/-! ## Where the core stands -/

/-- The core classes stand at `n`, `n + 1`, ..., the core generic functions at `m`, `m + 1`, ...,
and the methods of these begin with the core methods. -/
structure CoreAt (r : Registry) (n m : Nat) : Prop where
  core : r.core = some (coreFrom n m)
  classes : ∀ i name supers, (coreClassTable n)[i]? = some (name, supers) →
    r.HasClass ⟨n + i⟩ ∧ (r.getClass ⟨n + i⟩).name = name ∧ supers <+: r.supers ⟨n + i⟩
  generics : ∀ i name, coreGenericNames[i]? = some name →
    r.HasGeneric ⟨m + i⟩ ∧ (r.getGeneric ⟨m + i⟩).name = name ∧
      coreEntries (coreFrom n m) ⟨m + i⟩ <+: (r.getGeneric ⟨m + i⟩).methods

theorem CoreAt.getCore_eq {r : Registry} {n m : Nat} (h : CoreAt r n m) :
    r.getCore = .ok (coreFrom n m) := by
  unfold getCore
  rw [h.core]

theorem CoreAt.hasClass {r : Registry} {n m i : Nat} (h : CoreAt r n m) (hi : i < 13) :
    r.HasClass ⟨n + i⟩ :=
  (h.classes i _ _ (List.getElem?_eq_getElem (l := coreClassTable n) hi)).1

/-- No registration takes the core away. -/
theorem CoreAt.keep {r r' : Registry} {n m : Nat} (h : CoreAt r n m) (hkeeps : Keeps r r') :
    CoreAt r' n m where
  core := hkeeps.core.trans h.core
  classes i name supers hi := by
    obtain ⟨hplace, hname, hsupers⟩ := h.classes i name supers hi
    exact ⟨hkeeps.hasClass hplace, (hkeeps.className _ hplace).trans hname,
      hsupers.trans (hkeeps.supers _ hplace)⟩
  generics i name hi := by
    obtain ⟨hplace, hname, hmethods⟩ := h.generics i name hi
    exact ⟨hkeeps.hasGeneric hplace, (hkeeps.genericName _ hplace).trans hname,
      hmethods.trans (hkeeps.methods _ hplace)⟩

/-- The registry with a core. -/
def withCore (r : Registry) (core : Core) : Registry := { r with core := some core }

/-- A registry with the core classes. -/
def withClasses (r : Registry) : Registry := defineAll (coreClassTable r.classes.size) r

/-- A registry with the core classes and the core generic functions. -/
def withGenerics (r : Registry) : Registry := makeAll coreGenericNames r.withClasses

/-- The registry of a bootstrap before its core is set. -/
def declared (r : Registry) : Registry :=
  (registerMethods (coreFrom r.classes.size r.generics.size) r.withGenerics).2

/-- What a bootstrap does is decided by the core that is there. -/
private theorem bootstrap_run (r : Registry) :
    bootstrap r = match r.core with
      | some _ => (.error .alreadyBootstrapped, r)
      | none => (.ok (), (declareCore.run r).2) := by
  show (match r.core with
    | some _ => throw Error.alreadyBootstrapped
    | none => (declareCore : ExceptT Error (StateM Registry) Unit)) r = _
  -- What is declared plays no part in this.
  generalize declareCore = declare
  cases r.core <;> rfl

/-- A bootstrap of a registry with a core is refused and changes nothing. -/
theorem bootstrap_of_core {r : Registry} {core : Core} (h : r.core = some core) :
    bootstrap r = (.error .alreadyBootstrapped, r) := by
  rw [bootstrap_run, h]

/-- A bootstrap of a registry without a core succeeds and puts the core in its place. -/
theorem bootstrap_eq {r : Registry} (h : r.core = none) :
    bootstrap r =
      (.ok (), r.declared.withCore (coreFrom r.classes.size r.generics.size)) := by
  have hdeclare : (declareCore.run r).2 =
      r.declared.withCore (coreFrom r.classes.size r.generics.size) := by
    simp only [declareCore, StateT.run, bind_run, modify_run, declareClasses_eq,
      declareGenerics_eq, generics_defineAll, declared, withGenerics, withClasses, withCore,
      coreFrom]
  rw [bootstrap_run, h, hdeclare]

/-- The places of the core methods are places of the core. -/
theorem mem_coreMethods {n m : Nat} {c : ClassId} {g : GenericId} {method : CoreMethod}
    (h : (c, g, method) ∈ coreMethods (coreFrom n m)) :
    c.index < n + 13 ∧ g.index < m + 6 := by
  simp only [coreMethods, coreFrom, coreClassesFrom, coreGenericsFrom, List.mem_cons,
    Prod.mk.injEq, List.not_mem_nil, or_false] at h
  -- One case for each row of the table of core methods.
  rcases h with h | h | h | h | h | h | h | h | h | h | h | h | h | h
  all_goals
    obtain ⟨rfl, rfl, -⟩ := h
    constructor <;> simp only [] <;> omega

theorem grows_withClasses (r : Registry) : Grows r r.withClasses :=
  grows_defineAll (supersBefore_coreClassTable r.classes.size)

theorem grows_withGenerics (r : Registry) : Grows r.withClasses r.withGenerics :=
  grows_makeAll coreGenericNames r.withClasses

theorem size_classes_withClasses (r : Registry) :
    r.withClasses.classes.size = r.classes.size + 13 :=
  size_classes_defineAll (coreClassTable r.classes.size) r

theorem size_generics_withGenerics (r : Registry) :
    r.withGenerics.generics.size = r.generics.size + 6 := by
  have h := size_generics_makeAll coreGenericNames r.withClasses
  rw [show r.withClasses.generics = r.generics from generics_defineAll _ _] at h
  exact h

theorem hasGeneric_withGenerics {r : Registry} {c : ClassId} {g : GenericId} {method : CoreMethod}
    (h : (c, g, method) ∈ coreMethods (coreFrom r.classes.size r.generics.size)) :
    r.withGenerics.HasGeneric g := by
  unfold HasGeneric
  rw [size_generics_withGenerics]
  exact (mem_coreMethods h).2

theorem declared_eq (r : Registry) : r.declared =
    (registerAll (coreMethods (coreFrom r.classes.size r.generics.size)) r.withGenerics).2 := rfl

theorem grows_registerMethods (r : Registry) : Grows r.withGenerics r.declared := by
  refine grows_registerAll ?_
  intro c g method hmem
  refine ⟨(grows_withGenerics r).keeps.hasClass ?_, hasGeneric_withGenerics hmem⟩
  unfold HasClass
  rw [size_classes_withClasses]
  exact (mem_coreMethods hmem).1

theorem grows_declared (r : Registry) : Grows r r.declared :=
  .trans (.trans (grows_withClasses r) (grows_withGenerics r)) (grows_registerMethods r)

/-- A bootstrap gives the core classes the superclasses of the table and no others. -/
theorem supers_declared {r : Registry} {i : Nat} {name : Symbol} {supers : List ClassId}
    (hi : (coreClassTable r.classes.size)[i]? = some (name, supers)) :
    r.declared.supers ⟨r.classes.size + i⟩ = supers := by
  have hclasses : r.declared.classes = r.withClasses.classes := by
    rw [declared_eq, classes_registerAll]
    exact classes_makeAll _ _
  have hclass := (getClass_defineAll (r := r) hi).2
  unfold Registry.supers getClass
  rw [hclasses]
  exact hclass

private theorem coreAt_classes {r : Registry} {i : Nat} {name : Symbol} {supers : List ClassId}
    (hi : (coreClassTable r.classes.size)[i]? = some (name, supers)) :
    r.declared.HasClass ⟨r.classes.size + i⟩ ∧
      (r.declared.getClass ⟨r.classes.size + i⟩).name = name ∧
      supers <+: r.declared.supers ⟨r.classes.size + i⟩ := by
  have hplace : r.withClasses.HasClass ⟨r.classes.size + i⟩ := by
    have hlt : i < 13 := (List.getElem?_eq_some_iff.mp hi).1
    unfold HasClass
    rw [size_classes_withClasses]
    exact Nat.add_lt_add_left hlt _
  obtain ⟨hname, hsupers⟩ := getClass_defineAll (r := r) hi
  have hkeeps : Keeps r.withClasses r.declared :=
    (grows_withGenerics r).keeps.trans (grows_registerMethods r).keeps
  refine ⟨hkeeps.hasClass hplace, (hkeeps.className _ hplace).trans hname, ?_⟩
  have hprefix := hkeeps.supers _ hplace
  rw [show r.withClasses.supers ⟨r.classes.size + i⟩ = supers from hsupers] at hprefix
  exact hprefix

/-- A bootstrap makes the core generic functions new, without methods. -/
private theorem getGeneric_withGenerics {r : Registry} {i : Nat} {name : Symbol}
    (hi : coreGenericNames[i]? = some name) :
    r.withGenerics.getGeneric ⟨r.generics.size + i⟩ = ⟨name, []⟩ := by
  have hnew := getGeneric_makeAll (r := r.withClasses) hi
  rw [show r.withClasses.generics = r.generics from generics_defineAll _ _] at hnew
  exact hnew

/-- A bootstrap gives the core generic functions the methods of the table and no others. -/
theorem methods_declared {r : Registry} {i : Nat} {name : Symbol}
    (hi : coreGenericNames[i]? = some name) :
    (r.declared.getGeneric ⟨r.generics.size + i⟩).methods =
      coreEntries (coreFrom r.classes.size r.generics.size) ⟨r.generics.size + i⟩ := by
  rw [declared_eq, methods_registerAll (fun _ _ _ hmem => hasGeneric_withGenerics hmem),
    getGeneric_withGenerics hi]
  rfl

private theorem coreAt_generics {r : Registry} {i : Nat} {name : Symbol}
    (hi : coreGenericNames[i]? = some name) :
    r.declared.HasGeneric ⟨r.generics.size + i⟩ ∧
      (r.declared.getGeneric ⟨r.generics.size + i⟩).name = name ∧
      coreEntries (coreFrom r.classes.size r.generics.size) ⟨r.generics.size + i⟩ <+:
        (r.declared.getGeneric ⟨r.generics.size + i⟩).methods := by
  have hplace : r.withGenerics.HasGeneric ⟨r.generics.size + i⟩ := by
    have hlt : i < 6 := (List.getElem?_eq_some_iff.mp hi).1
    unfold HasGeneric
    rw [size_generics_withGenerics]
    exact Nat.add_lt_add_left hlt _
  have hkeeps := (grows_registerMethods r).keeps
  refine ⟨hkeeps.hasGeneric hplace, ?_, ?_⟩
  · rw [hkeeps.genericName _ hplace, getGeneric_withGenerics hi]
  · exact ⟨[], by rw [methods_declared hi, List.append_nil]⟩

private theorem coreAt_withCore {d : Registry} {n m : Nat}
    (classes : ∀ i name supers, (coreClassTable n)[i]? = some (name, supers) →
      d.HasClass ⟨n + i⟩ ∧ (d.getClass ⟨n + i⟩).name = name ∧ supers <+: d.supers ⟨n + i⟩)
    (generics : ∀ i name, coreGenericNames[i]? = some name →
      d.HasGeneric ⟨m + i⟩ ∧ (d.getGeneric ⟨m + i⟩).name = name ∧
        coreEntries (coreFrom n m) ⟨m + i⟩ <+: (d.getGeneric ⟨m + i⟩).methods) :
    CoreAt (d.withCore (coreFrom n m)) n m :=
  ⟨rfl, classes, generics⟩

/-- A bootstrap puts the core in its place, whatever was registered before. -/
theorem coreAt_bootstrap (r : Registry) :
    CoreAt (r.declared.withCore (coreFrom r.classes.size r.generics.size))
      r.classes.size r.generics.size :=
  coreAt_withCore (fun _ _ _ hi => coreAt_classes hi) (fun _ _ hi => coreAt_generics hi)

end Registry
end LispFront
