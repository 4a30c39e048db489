import LispFront.Object.Value

namespace LispFront

/-!
# The registry

The tables of classes, wrappers and generic functions.  Entries are only added: a class is never
removed, and its superclasses and the methods of a generic function grow at their end.  A name may
be given to several entries; looking it up finds the latest.
-/

/-- A class: its name, its direct superclasses in order, and its wrapper. -/
structure Class where
  name : Symbol
  supers : List ClassId
  wrapper : WrapperId
deriving DecidableEq, Repr

/-- A method: one class for every argument that is dispatched on, and what is run. -/
structure MethodEntry where
  closure : Closure
  specializers : List ClassId
deriving DecidableEq, Repr

/-- A generic function: its name, and its methods in the order of their registration. -/
structure GenericFunction where
  name : Symbol
  methods : List MethodEntry
deriving DecidableEq, Repr

/-- The classes of the values that are no objects of a user's class, and their superclasses. -/
structure CoreClasses where
  object : ClassId
  nil : ClassId
  symbol : ClassId
  string : ClassId
  number : ClassId
  closure : ClassId
  classObject : ClassId
  generic : ClassId
  syntaxObject : ClassId
  syntaxSymbol : ClassId
  syntaxString : ClassId
  syntaxNumber : ClassId
  syntaxList : ClassId
deriving DecidableEq, Repr

/-- The generic functions that every object system is equipped with. -/
structure CoreGenerics where
  add : GenericId
  first : GenericId
  second : GenericId
  third : GenericId
  fourth : GenericId
  printObject : GenericId
deriving DecidableEq, Repr

/-- The core classes and generic functions. -/
structure Core where
  classes : CoreClasses
  generics : CoreGenerics
deriving DecidableEq, Repr

/-- The tables of an object system.  `wrappers` holds the class of every wrapper, and the two
name tables hold the latest entry of a name first. -/
structure Registry where
  classes : Array Class
  wrappers : Array ClassId
  generics : Array GenericFunction
  classNames : List (Symbol × ClassId)
  genericNames : List (Symbol × GenericId)
  core : Option Core
deriving DecidableEq, Repr

namespace Registry

/-- The registry without any entry. -/
def empty : Registry := ⟨#[], #[], #[], [], [], none⟩

/-! ## Looking up -/

/-- The class at a place; a place that was never given out holds a class without a name. -/
def getClass (r : Registry) (id : ClassId) : Class :=
  (r.classes[id.index]?).getD ⟨⟨""⟩, [], ⟨0⟩⟩

/-- The class of a wrapper. -/
def getWrapper (r : Registry) (id : WrapperId) : ClassId :=
  (r.wrappers[id.index]?).getD ⟨0⟩

/-- The generic function at a place. -/
def getGeneric (r : Registry) (id : GenericId) : GenericFunction :=
  (r.generics[id.index]?).getD ⟨⟨""⟩, []⟩

/-- The latest class of a name. -/
def findClass (r : Registry) (name : Symbol) : Option ClassId := r.classNames.lookup name

/-- The latest generic function of a name. -/
def findGeneric (r : Registry) (name : Symbol) : Option GenericId := r.genericNames.lookup name

/-- The core classes and generic functions, once they are there. -/
def getCore (r : Registry) : Except Error Core :=
  match r.core with
  | some core => .ok core
  | none => .error .notBootstrapped

/-! ## Registering -/

/-- A new class without superclasses, with a new wrapper of its own. -/
def makeClass (name : Symbol) : StateM Registry ClassId := fun r =>
  let id : ClassId := ⟨r.classes.size⟩
  (id, { r with
    classes := r.classes.push ⟨name, [], ⟨r.wrappers.size⟩⟩
    wrappers := r.wrappers.push id
    classNames := (name, id) :: r.classNames })

/-- Adds a class at the end of the direct superclasses of another. -/
def addSuperclass (id super : ClassId) : StateM Registry Unit := fun r =>
  ((), { r with
    classes := r.classes.modify id.index fun c => { c with supers := c.supers ++ [super] } })

/-- A new class with these direct superclasses. -/
def defineClass (name : Symbol) (supers : List ClassId) : StateM Registry ClassId := do
  let id ← makeClass name
  supers.forM (addSuperclass id)
  return id

/-- A new generic function without methods. -/
def makeGeneric (name : Symbol) : StateM Registry GenericId := fun r =>
  let id : GenericId := ⟨r.generics.size⟩
  (id, { r with
    generics := r.generics.push ⟨name, []⟩
    genericNames := (name, id) :: r.genericNames })

/-- Adds a method at the end of those of a generic function.  An earlier method for the same
classes stays, and stays before it. -/
def addMethod (generic : GenericId) (closure : Closure) (specializers : List ClassId) :
    StateM Registry Unit := fun r =>
  ((), { r with
    generics := r.generics.modify generic.index fun g =>
      { g with methods := g.methods ++ [⟨closure, specializers⟩] } })

/-- Adds a method that is dispatched on the receiver only. -/
def putMethod (id : ClassId) (generic : GenericId) (closure : Closure) : StateM Registry Unit :=
  addMethod generic closure [id]

/-! ## A new class beside the others -/

@[simp] theorem makeClass_fst (name : Symbol) (r : Registry) :
    (makeClass name r).1 = ⟨r.classes.size⟩ := rfl

@[simp] theorem size_classes_makeClass (name : Symbol) (r : Registry) :
    (makeClass name r).2.classes.size = r.classes.size + 1 := by
  simp [makeClass]

theorem getClass_makeClass_self (name : Symbol) (r : Registry) :
    (makeClass name r).2.getClass (makeClass name r).1 = ⟨name, [], ⟨r.wrappers.size⟩⟩ := by
  simp [makeClass, getClass]

theorem getClass_makeClass_of_lt {r : Registry} {id : ClassId} (h : id.index < r.classes.size)
    (name : Symbol) : (makeClass name r).2.getClass id = r.getClass id := by
  have hne : id.index ≠ r.classes.size := Nat.ne_of_lt h
  simp [makeClass, getClass, Array.getElem?_push, hne]

end Registry

end LispFront
