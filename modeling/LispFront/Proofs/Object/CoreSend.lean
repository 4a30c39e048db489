import LispFront.Proofs.Object.Dispatch
import Mathlib.Tactic.IntervalCases

/-!
# Core sends to lists

The reader and the normalizer reach syntax lists through the core generic functions.  In a booted
registry a list is always received by the core method, because that stands in front of all others
and asks for the class of the list itself; so a send of `first` to `fourth` looks up an element,
and a send of `add` adds one, whatever else is registered.
-/

namespace LispFront

/-- The place of the class of a syntax object among the core classes. -/
def Syntax.classIndex : Syntax → Nat
  | symbol _ => 9
  | string _ => 10
  | number _ => 11
  | list _ => 12

theorem Syntax.classIndex_lt (x : Syntax) : x.classIndex < 13 := by
  cases x <;> simp [classIndex]

namespace Registry

variable {r : Registry} {n m : Nat}

/-! ## The methods in front -/

/-- The core methods for lists, in the order of the generic functions that they belong to. -/
def listMethods : List CoreMethod :=
  [.addElement, .firstElement, .secondElement, .thirdElement, .fourthElement]

/-- Each of the first five core generic functions has one core method, and that asks for a list. -/
theorem coreEntries_of_listMethods {i : Nat} {method : CoreMethod}
    (h : listMethods[i]? = some method) (n m : Nat) :
    coreEntries (coreFrom n m) ⟨m + i⟩ = [⟨⟨.core method, .nil⟩, [⟨n + 12⟩]⟩] := by
  have hi : i < 5 := (List.getElem?_eq_some_iff.mp h).1
  interval_cases i
  all_goals
    obtain rfl := Option.some.inj h
    simp [coreEntries, entriesFor, coreMethods, coreFrom, coreGenericsFrom, coreClassesFrom]

/-- The core method for lists stands in front of all others. -/
theorem CoreAt.listMethod_front (h : CoreAt r n m) {i : Nat} {method : CoreMethod}
    (hi : listMethods[i]? = some method) :
    [⟨⟨.core method, .nil⟩, [⟨n + 12⟩]⟩] <+: (r.getGeneric ⟨m + i⟩).methods := by
  have hlt : i < 5 := (List.getElem?_eq_some_iff.mp hi).1
  have hname := List.getElem?_eq_getElem (l := coreGenericNames) (Nat.lt_succ_of_lt hlt)
  rw [← coreEntries_of_listMethods hi n m]
  exact (h.generics i _ hname).2.2

/-- The class of a syntax object. -/
theorem CoreAt.classOf_stx (h : CoreAt r n m) (hr : r.Consistent) (x : Syntax) :
    r.classOf (.stx x) = .ok ⟨n + x.classIndex⟩ := by
  have hplace : r.HasClass ⟨n + x.classIndex⟩ := h.hasClass x.classIndex_lt
  have hwrapper : r.wrapperIn (coreFrom n m) (.stx x) = ⟨n + x.classIndex⟩ := by
    rw [← hr.wrapper ⟨n + x.classIndex⟩ hplace]
    cases x <;> rfl
  rw [classOf_eq h.core, hwrapper]
  exact congrArg Except.ok (hr.classOfWrapper ⟨n + x.classIndex⟩ hplace)

/-- A method that stands in front of all others and asks for a list only is what a list gets. -/
theorem Booted.select_list (hr : r.Booted) (h : CoreAt r n m) {generic : GenericId}
    {npos nkey : UInt64} {l : ListRef} {positional : List Value}
    (hlayout : checkLayout npos nkey (.stx (.list l) :: positional) = .ok ())
    (hnpos : 0 < npos.toNat) {closure : Closure}
    (hfront : [⟨closure, [⟨n + 12⟩]⟩] <+: (r.getGeneric generic).methods) :
    r.select generic npos nkey (.stx (.list l) :: positional) =
      .ok ⟨(r.getGeneric generic).name, 0, closure⟩ := by
  obtain ⟨others, hmethods⟩ := hfront
  obtain ⟨count, hcount⟩ := Nat.exists_eq_succ_of_ne_zero (Nat.ne_of_gt hnpos)
  have hentry : (r.getGeneric generic).methods[0]? = some ⟨closure, [⟨n + 12⟩]⟩ := by
    rw [← hmethods]
    rfl
  -- Nothing stands before the first method, so it is enough that it applies.
  refine hr.select_of_first hlayout hentry ?_ fun j hj => absurd hj (Nat.not_lt_zero j)
  rw [hcount, List.take_succ_cons]
  exact appliesTo_receiver.mpr ⟨_, h.classOf_stx hr.consistent _, .refl⟩

end Registry

/-! ## What the sends answer -/

namespace ObjectSystem

open Registry

variable {sys : ObjectSystem} {n m : Nat} {h : Heap} {l : ListRef}

/-- A send of a core generic function to a list runs its core method. -/
theorem answers_send_list (hr : sys.registry.Booted) (hat : CoreAt sys.registry n m)
    {i : Nat} {method : CoreMethod} (hi : listMethods[i]? = some method) {npos : UInt64}
    {positional : List Value}
    (hlayout : checkLayout npos 0 (.stx (.list l) :: positional) = .ok ())
    (hnpos : 0 < npos.toNat) {result : Except Error Value} {h' : Heap}
    (hbody : ∀ perform : Request → Exec Value,
      ((method.method sys.registry .nil npos 0 (.stx (.list l) :: positional)).run
        perform).Answers h result h') :
    (sys.sendRaw ⟨m + i⟩ npos 0 (.stx (.list l) :: positional)).Answers h result h' := by
  have hselect := hr.select_list hat hlayout hnpos (hat.listMethod_front hi)
  intro log
  rw [runFrom_sendRaw_ok hselect]
  exact hbody _ _

/-- Looking up an element of a list is looking it up in the heap. -/
theorem answers_elementBody (perform : Request → Exec Value) {index : Nat}
    {result : Except Error Syntax} (hnth : h.nth l index = some result) :
    ((CoreMethod.elementBody index (.stx (.list l))).run perform).Answers h
      (result.map .stx) h := by
  unfold CoreMethod.elementBody
  rw [Body.run_then]
  refine (Body.answers_run_ofExcept (.ok l) h).bind_ok ?_
  rw [Body.run_then]
  have hlook : ((Body.ofHeap fun h => h.nth l index).run perform).Answers h result h :=
    Body.answers_run_ofHeap hnth
  cases result with
  | ok element => exact hlook.bind_ok (Exec.answers_pure _ h)
  | error e => exact hlook.bind_error

/-- A send of `first`, `second`, `third` or `fourth` to a list looks up the element. -/
theorem answers_element (hr : sys.registry.Booted) (hat : CoreAt sys.registry n m) {index : Nat}
    (hindex : index < 4) {result : Except Error Syntax} (hnth : h.nth l index = some result) :
    (sys.sendRaw ⟨m + (index + 1)⟩ 1 0 [.stx (.list l)]).Answers h (result.map .stx) h := by
  interval_cases index
  · exact answers_send_list hr hat (i := 1) rfl rfl (by decide) fun perform =>
      answers_elementBody perform hnth
  · exact answers_send_list hr hat (i := 2) rfl rfl (by decide) fun perform =>
      answers_elementBody perform hnth
  · exact answers_send_list hr hat (i := 3) rfl rfl (by decide) fun perform =>
      answers_elementBody perform hnth
  · exact answers_send_list hr hat (i := 4) rfl rfl (by decide) fun perform =>
      answers_elementBody perform hnth

/-- A send of `add` to a list and a syntax object adds the object at the end of the list. -/
theorem answers_add (hr : sys.registry.Booted) (hat : CoreAt sys.registry n m) (h : Heap)
    (l : ListRef) (element : Syntax) :
    (sys.sendRaw ⟨m⟩ 2 0 [.stx (.list l), .stx element]).Answers h (.ok (.stx (.list l)))
      (h.append l element) :=
  answers_send_list hr hat (i := 0) rfl rfl (by decide) fun _ log => ⟨log, rfl⟩

/-- A system with methods of a user for `add` and `first` that apply to everything, and with a class
of lists that inherits from itself. -/
def extendedSystem : ObjectSystem :=
  ⟨Registration.applyAll
    [.addMethod ⟨0⟩ ⟨.user "any", .nil⟩ [], .addMethod ⟨1⟩ ⟨.user "any", .nil⟩ [],
      .addSuperclass ⟨12⟩ ⟨12⟩] coreOnly,
    fun _ _ env _ _ _ => pure env⟩

theorem booted_extendedSystem : extendedSystem.registry.Booted :=
  booted_coreOnly.steps (by decide +kernel)

end ObjectSystem
end LispFront
