import LispFront.Object.CoreMethod
import LispFront.Trace

namespace LispFront

/-!
# Running methods

An object system pairs a registry with the bodies of the users' methods.  Running a request takes
a store, the heap of syntax lists with the log, to a new store and a value or an error.  Sends may
nest; a send that nests deeper than a given bound has no answer.

The two main statements are `Body.run_bind`, by which bodies may be run one after the other, and
`perform_extendedBy_succ`, by which more depth never changes an answer.
-/

/-- What a run can change: the syntax lists and the log. -/
structure Store where
  heap : Heap
  log : Array Event
deriving Repr

/-- The store without lists and without events. -/
def Store.empty : Store := ⟨Heap.empty, #[]⟩

/-- A computation on the store.  An error keeps what was done before it. -/
abbrev Exec (α : Type) : Type := ExceptT Error (StateT Store Option) α

namespace Exec

/-- The computation that never returns. -/
def never {α : Type} : Exec α := fun _ => none

/-- Runs a computation from a store. -/
def runFrom {α : Type} (x : Exec α) (s : Store) : Option (Except Error α × Store) := x s

/-- The value of a result, or its error. -/
def ofExcept {α : Type} : Except Error α → Exec α
  | .ok a => pure a
  | .error e => throw e

/-- What an operation on the heap answers. -/
def ofHeap {α : Type} (operation : Heap → Answer α) : Exec α := fun s =>
  match operation s.heap with
  | none => none
  | some result => some (result, s)

/-- Records an event. -/
def trace (e : Event) : Exec Unit := modify fun s => { s with log := s.log.push e }

/-- A new list with these elements. -/
def alloc (elements : List Syntax) : Exec ListRef := do
  let s ← get
  let (l, heap) := s.heap.alloc elements
  set { s with heap := heap }
  return l

/-- Adds an element at the end of a list. -/
def append (l : ListRef) (element : Syntax) : Exec Unit :=
  modify fun s => { s with heap := s.heap.append l element }

/-- What those see of a result who go on after it: a value or an error, but no overflow. -/
def seen {α : Type} : Except Error α → Except Error (Except Error α)
  | .error .overflow => .error .overflow
  | result => .ok result

theorem seen_of_ne_overflow {α : Type} {result : Except Error α}
    (hne : result ≠ .error .overflow) : seen result = .ok result := by
  unfold seen
  split
  · exact absurd rfl hne
  · rfl

/-- The result of a computation, be it a value or an error.  An overflow stops whoever asks for
it. -/
def attempt {α : Type} (x : Exec α) : Exec (Except Error α) := fun s =>
  (x s).map fun (result, s) => (seen result, s)

/-! ### One after the other -/

/-- Two computations one after the other: the second goes on from the store of the first, unless
the first fails or has no answer. -/
theorem runFrom_bind {α β : Type} (x : Exec α) (f : α → Exec β) (s : Store) :
    (x >>= f).runFrom s =
      (x.runFrom s).bind fun
        | (.ok a, s) => (f a).runFrom s
        | (.error e, s) => some (.error e, s) := by
  unfold runFrom
  change (x s).bind _ = (x s).bind _
  congr 1
  funext p
  obtain ⟨result, s⟩ := p
  cases result <;> rfl

/-! ### Having more answers -/

/-- Whether `y` gives every answer that `x` gives. -/
def ExtendedBy {α : Type} (x y : Exec α) : Prop :=
  ∀ s answer, x.runFrom s = some answer → y.runFrom s = some answer

theorem ExtendedBy.refl {α : Type} (x : Exec α) : x.ExtendedBy x := fun _ _ h => h

theorem ExtendedBy.bind {α β : Type} {x y : Exec α} {f g : α → Exec β} (hxy : x.ExtendedBy y)
    (hfg : ∀ a, (f a).ExtendedBy (g a)) : (x >>= f).ExtendedBy (y >>= g) := by
  intro s answer h
  rw [runFrom_bind] at h ⊢
  cases hx : x.runFrom s with
  | none => simp [hx] at h
  | some p =>
    rw [hx] at h
    rw [hxy s p hx]
    obtain ⟨result, s⟩ := p
    cases result with
    | ok a => exact hfg a s answer h
    | error e => exact h

theorem ExtendedBy.attempt {α : Type} {x y : Exec α} (h : x.ExtendedBy y) :
    x.attempt.ExtendedBy y.attempt := by
  intro s answer hx
  obtain ⟨p, hp, rfl⟩ := Option.map_eq_some_iff.1 hx
  exact Option.map_eq_some_iff.2 ⟨p, h s p hp, rfl⟩

end Exec

/-! ## Method bodies -/

/-- Runs the steps of a method body, answering its requests with `perform`. -/
def Body.run {α : Type} (perform : Request → Exec Value) : Body α → Exec α
  | .done a => pure a
  | .fail e => throw e
  | .never => Exec.never
  | .look next => do (next (← get).heap).run perform
  | .alloc elements next => do (next (← Exec.alloc elements)).run perform
  | .append l element next => do
    Exec.append l element
    next.run perform
  | .request r next => do (next (← (perform r).attempt)).run perform

/-- A body that goes on with another runs the one after the other. -/
theorem Body.run_bind {α β : Type} (perform : Request → Exec Value) (b : Body α)
    (f : α → Body β) :
    (b.bind f).run perform = b.run perform >>= fun a => (f a).run perform := by
  induction b with
  | done a => simp [Body.bind, Body.run]
  | fail e => rfl
  | never => rfl
  | look next ih => simp [Body.bind, Body.run, ih]
  | alloc elements next ih => simp [Body.bind, Body.run, ih]
  | append l element next ih => simp [Body.bind, Body.run, ih]
  | request r next ih => simp [Body.bind, Body.run, ih]

/-- A body runs to the same answer when more of its requests are answered. -/
theorem Body.run_extendedBy {α : Type} {perform perform' : Request → Exec Value}
    (h : ∀ r, (perform r).ExtendedBy (perform' r)) (b : Body α) :
    (b.run perform).ExtendedBy (b.run perform') := by
  induction b with
  | done a => exact .refl _
  | fail e => exact .refl _
  | never => exact .refl _
  | look next ih => exact .bind (.refl _) fun s => ih s.heap
  | alloc elements next ih => exact .bind (.refl _) ih
  | append l element next ih => exact .bind (.refl _) fun _ => ih
  | request r next ih => exact .bind (h r).attempt ih

/-! ## Object systems -/

/-- A registry with the bodies of the users' methods, by name. -/
structure ObjectSystem where
  registry : Registry
  library : String → Method

namespace ObjectSystem

/-- The method that a piece of code stands for. -/
def methodOf (sys : ObjectSystem) : Code → Method
  | .core m => m.method
  | .user name => sys.library name

/-- Runs the body of a closure. -/
def enter (sys : ObjectSystem) (perform : Request → Exec Value) (c : Closure)
    (npos nkey : UInt64) (args : List Value) : Exec Value :=
  (sys.methodOf c.code sys.registry c.env npos nkey args).run perform

/-- Answers a request whose sends and calls nest less than `depth` deep. -/
def perform (sys : ObjectSystem) : (depth : Nat) → Request → Exec Value
  | 0, _ => Exec.never
  | depth + 1, .send generic npos nkey args => do
    let selection ← Exec.ofExcept (sys.registry.select generic npos nkey args)
    Exec.trace (.selected selection.generic selection.index)
    sys.enter (sys.perform depth) selection.closure npos nkey args
  | depth + 1, .call callee npos nkey args =>
    match callee with
    | .closure code env => do
      Exec.ofExcept (checkLayout npos nkey args)
      sys.enter (sys.perform depth) ⟨code, env⟩ npos nkey args
    | v => throw (.notCallable v.kind)

/-- More depth never changes an answer. -/
theorem perform_extendedBy_succ (sys : ObjectSystem) (depth : Nat) (r : Request) :
    (sys.perform depth r).ExtendedBy (sys.perform (depth + 1) r) := by
  induction depth generalizing r with
  | zero =>
    intro s answer h
    cases r <;> simp [perform, Exec.never, Exec.runFrom] at h
  | succ depth ih =>
    cases r with
    | send generic npos nkey args =>
      refine .bind (.refl _) fun selection => .bind (.refl _) fun _ => ?_
      exact Body.run_extendedBy ih _
    | call callee npos nkey args =>
      cases callee with
      | closure code env => exact .bind (.refl _) fun _ => Body.run_extendedBy ih _
      | _ => exact .refl _

/-- How deep sends may nest.  Printing nests once for every list inside another, so the bound
grows with the heap. -/
def depthBound (s : Store) : Nat := s.heap.size + 5000

/-- Sends a generic function to a flat list of arguments. -/
def sendRaw (sys : ObjectSystem) (generic : GenericId) (npos nkey : UInt64) (args : List Value) :
    Exec Value := do
  sys.perform (depthBound (← get)) (.send generic npos nkey args)

/-- Sends a generic function to a receiver, with further positional and with keyword
arguments. -/
def send (sys : ObjectSystem) (generic : GenericId) (receiver : Value) (positional : List Value)
    (keywords : List (Symbol × Value)) : Exec Value :=
  sys.sendRaw generic (receiver :: positional).length.toUInt64 keywords.length.toUInt64
    (flattenArguments (receiver :: positional) keywords)

/-- Calls a value, which has to be a closure. -/
def call (sys : ObjectSystem) (callee : Value) (npos nkey : UInt64) (args : List Value) :
    Exec Value := do
  sys.perform (depthBound (← get)) (.call callee npos nkey args)

/-- Runs a closure without a check of the counts. -/
def invoke (sys : ObjectSystem) (c : Closure) (npos nkey : UInt64) (args : List Value) :
    Exec Value := do
  sys.enter (sys.perform (depthBound (← get))) c npos nkey args

/-- The text that `print-object` gives for a value. -/
def print (sys : ObjectSystem) (v : Value) : Exec String := do
  let core ← Exec.ofExcept sys.registry.getCore
  let printed ← sys.sendRaw core.generics.printObject 1 0 [v]
  Exec.ofExcept printed.asString

end ObjectSystem

end LispFront
