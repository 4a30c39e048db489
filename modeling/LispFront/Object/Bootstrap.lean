import LispFront.Object.Run

namespace LispFront

/-!
# Bootstrap

Puts the core classes, the core generic functions and the core methods into a registry, in this
order.  It can be done once, whatever was registered before.
-/

namespace Registry

/-- The core classes; all of them hang off `<object>`. -/
def declareClasses : StateM Registry CoreClasses := do
  let object ← defineClass ⟨"<object>"⟩ []
  let syntaxObject ← defineClass ⟨"<syntax>"⟩ [object]
  let nil ← defineClass ⟨"<nil>"⟩ [object]
  let symbol ← defineClass ⟨"<symbol>"⟩ [object]
  let string ← defineClass ⟨"<string>"⟩ [object]
  let number ← defineClass ⟨"<number>"⟩ [object]
  let closure ← defineClass ⟨"<closure>"⟩ [object]
  let classObject ← defineClass ⟨"<class>"⟩ [object]
  let generic ← defineClass ⟨"<generic-function>"⟩ [object]
  let syntaxSymbol ← defineClass ⟨"<syntax-symbol>"⟩ [syntaxObject]
  let syntaxString ← defineClass ⟨"<syntax-string>"⟩ [syntaxObject]
  let syntaxNumber ← defineClass ⟨"<syntax-number>"⟩ [syntaxObject]
  let syntaxList ← defineClass ⟨"<syntax-list>"⟩ [syntaxObject]
  return { object, nil, symbol, string, number, closure, classObject, generic, syntaxObject,
           syntaxSymbol, syntaxString, syntaxNumber, syntaxList }

/-- The core generic functions, without methods. -/
def declareGenerics : StateM Registry CoreGenerics := do
  let add ← makeGeneric ⟨"add"⟩
  let first ← makeGeneric ⟨"first"⟩
  let second ← makeGeneric ⟨"second"⟩
  let third ← makeGeneric ⟨"third"⟩
  let fourth ← makeGeneric ⟨"fourth"⟩
  let printObject ← makeGeneric ⟨"print-object"⟩
  return { add, first, second, third, fourth, printObject }

/-- Which core method is registered for which class and generic function, in order. -/
def coreMethods (core : Core) : List (ClassId × GenericId × CoreMethod) :=
  let c := core.classes
  let g := core.generics
  [ (c.syntaxList, g.add, .addElement),
    (c.syntaxList, g.first, .firstElement),
    (c.syntaxList, g.second, .secondElement),
    (c.syntaxList, g.third, .thirdElement),
    (c.syntaxList, g.fourth, .fourthElement),
    (c.syntaxList, g.printObject, .printSyntaxList),
    (c.syntaxSymbol, g.printObject, .printSyntaxSymbol),
    (c.syntaxString, g.printObject, .printSyntaxString),
    (c.syntaxNumber, g.printObject, .printSyntaxNumber),
    (c.symbol, g.printObject, .printSymbol),
    (c.string, g.printObject, .printString),
    (c.number, g.printObject, .printNumber),
    (c.nil, g.printObject, .printNil),
    (c.object, g.printObject, .printObject) ]

/-- Registers the core methods. -/
def registerMethods (core : Core) : StateM Registry Unit :=
  (coreMethods core).forM fun (id, generic, method) => putMethod id generic ⟨.core method, .nil⟩

/-- The core classes, generic functions and methods, one after the other. -/
def declareCore : StateM Registry Unit := do
  let classes ← declareClasses
  let generics ← declareGenerics
  let core : Core := { classes, generics }
  registerMethods core
  modify fun r => { r with core := some core }

/-- Puts the core in its place.  A registry that has one already is refused. -/
def bootstrap : ExceptT Error (StateM Registry) Unit := do
  match (← get).core with
  | some _ => throw .alreadyBootstrapped
  | none => declareCore

end Registry

namespace ObjectSystem

/-- Bootstraps the registry and records the three phases. -/
def bootstrap (sys : ObjectSystem) : Exec ObjectSystem := do
  let (result, registry) := Registry.bootstrap.run sys.registry
  Exec.ofExcept result
  Exec.trace .declaredClasses
  Exec.trace .declaredGenerics
  Exec.trace .registeredMethods
  return { sys with registry }

/-- An object system with nothing but its core. -/
def boot (library : String → Method) : Exec ObjectSystem :=
  bootstrap ⟨Registry.empty, library⟩

end ObjectSystem

end LispFront
