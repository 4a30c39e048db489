import LispFront.Proofs.Object.Inheritance
import Mathlib.Data.List.Perm.Basic
import Mathlib.Logic.Function.Iterate

/-!
# The search as a loop

`Registry.Search` is the search for a superclass as a loop: an array says which classes were
visited, and a stack holds the classes that are still to be looked at, some of them more than
once.  A round of the loop takes the top of the stack.

* `Search.measure` is what is left to do: the height of the stack, and one for every edge that
  leaves an unvisited class.  A visit moves the edges of its class onto the stack, so that each
  round takes one off the measure, whatever the graph looks like.
* `Search.exists_answered` is the loop invariant with the end of the loop: the answer is whether a
  path through unvisited classes leads from the stack to the target.
-/

namespace LispFront
namespace Registry

/-- A state of the search: on its way, with a flag for every visited class and with the pending
classes, the top of the stack first; ended with an answer; or stopped at a place without a class. -/
inductive Search where
  | running (visited : Array Bool) (stack : List ClassId)
  | answered (found : Bool)
  | outOfTable
deriving DecidableEq, Repr

namespace Search

/-- Nothing is visited, and the class where the search starts is pending. -/
def start (r : Registry) (a : ClassId) : Search :=
  running (Array.replicate r.classes.size false) [a]

/-- One round of the search for `target`.  A class that was visited before is dropped; the direct
superclasses of another are pushed in their order, the last one on top. -/
def step (r : Registry) (target : ClassId) : Search → Search
  | running _ [] => answered false
  | running visited (id :: rest) =>
    if id = target then answered true
    else
      match visited[id.index]? with
      | none => outOfTable
      | some true => running visited rest
      | some false =>
        running (visited.setIfInBounds id.index true) ((r.supers id).reverse ++ rest)
  | answered found => answered found
  | outOfTable => outOfTable

/-- The classes whose flag is not set. -/
def unvisited (r : Registry) (visited : Array Bool) : List ClassId :=
  r.allClasses.filter fun id => visited[id.index]? == some false

/-- How many edges leave the classes of a list. -/
def edgesFrom (r : Registry) (classes : List ClassId) : Nat :=
  (classes.flatMap r.supers).length

/-- How many rounds can follow at most, but for the last. -/
def measure (r : Registry) (visited : Array Bool) (stack : List ClassId) : Nat :=
  stack.length + edgesFrom r (unvisited r visited)

/-- The loop invariant: there is a flag for every class, the pending classes exist, and the target
is not among the visited ones. -/
structure Intact (r : Registry) (target : ClassId) (visited : Array Bool) (stack : List ClassId) :
    Prop where
  flags : visited.size = r.classes.size
  stack : ∀ id ∈ stack, r.HasClass id
  target : visited[target.index]? ≠ some true

variable {r : Registry} {visited : Array Bool} {id target : ClassId} {rest stack : List ClassId}

/-! ### The unvisited classes -/

theorem nodup_unvisited (r : Registry) (visited : Array Bool) : (unvisited r visited).Nodup :=
  (nodup_allClasses r).filter _

theorem mem_unvisited_iff (hsize : visited.size = r.classes.size) :
    id ∈ unvisited r visited ↔ visited[id.index]? = some false := by
  unfold unvisited
  rw [List.mem_filter, mem_allClasses, beq_iff_eq]
  refine ⟨And.right, fun hflag => ⟨?_, hflag⟩⟩
  obtain ⟨hplace, -⟩ := Array.getElem?_eq_some_iff.mp hflag
  unfold HasClass
  rw [← hsize]
  exact hplace

theorem unvisited_replicate (r : Registry) :
    unvisited r (Array.replicate r.classes.size false) = r.allClasses := by
  unfold unvisited
  rw [List.filter_eq_self]
  intro id hid
  have hplace : id.index < r.classes.size := (mem_allClasses r id).mp hid
  simp [hplace]

/-- A visit takes the class out of the unvisited ones. -/
theorem unvisited_setIfInBounds (hid : id.index < visited.size) :
    unvisited r (visited.setIfInBounds id.index true) = (unvisited r visited).erase id := by
  rw [(nodup_unvisited r visited).erase_eq_filter id]
  unfold unvisited
  rw [List.filter_filter]
  refine List.filter_congr fun other _ => ?_
  by_cases hsame : other = id
  · subst hsame
    simp [hid]
  · simp [ClassId.index_ne (Ne.symm hsame), hsame]

/-! ### One round -/

theorem step_target : step r target (running visited (target :: rest)) = answered true := by
  simp [step]

theorem step_visited (hne : id ≠ target) (hflag : visited[id.index]? = some true) :
    step r target (running visited (id :: rest)) = running visited rest := by
  simp only [step, if_neg hne, hflag]

theorem step_unvisited (hne : id ≠ target) (hflag : visited[id.index]? = some false) :
    step r target (running visited (id :: rest)) =
      running (visited.setIfInBounds id.index true) ((r.supers id).reverse ++ rest) := by
  simp only [step, if_neg hne, hflag]

/-- The class on top of the stack has a flag. -/
theorem Intact.exists_flag (h : Intact r target visited (id :: rest)) :
    ∃ flag, visited[id.index]? = some flag := by
  have hplace : id.index < visited.size := by
    rw [h.flags]
    exact h.stack id List.mem_cons_self
  exact ⟨_, Array.getElem?_eq_getElem hplace⟩

theorem Intact.drop (h : Intact r target visited (id :: rest)) : Intact r target visited rest where
  flags := h.flags
  stack p hp := h.stack p (List.mem_cons_of_mem _ hp)
  target := h.target

theorem Intact.visit (h : Intact r target visited (id :: rest)) (hclosed : r.SupersExist)
    (hne : id ≠ target) :
    Intact r target (visited.setIfInBounds id.index true) ((r.supers id).reverse ++ rest) where
  flags := by rw [Array.size_setIfInBounds, h.flags]
  stack p hp := by
    rcases List.mem_append.mp hp with hsuper | hold
    · exact hclosed id (h.stack id List.mem_cons_self) p (List.mem_reverse.mp hsuper)
    · exact h.stack p (List.mem_cons_of_mem _ hold)
  target := by
    rw [Array.getElem?_setIfInBounds_ne (ClassId.index_ne hne)]
    exact h.target

theorem measure_cons (r : Registry) (visited : Array Bool) (id : ClassId) (rest : List ClassId) :
    measure r visited (id :: rest) = measure r visited rest + 1 := by
  unfold measure
  rw [List.length_cons]
  omega

/-- A visit takes a class off the stack and moves its edges from the graph onto the stack. -/
theorem measure_visit (hid : id ∈ unvisited r visited) (hplace : id.index < visited.size)
    (rest : List ClassId) :
    measure r visited (id :: rest) =
      measure r (visited.setIfInBounds id.index true) ((r.supers id).reverse ++ rest) + 1 := by
  have hedges : (r.supers id).length + edgesFrom r ((unvisited r visited).erase id) =
      edgesFrom r (unvisited r visited) := by
    have hperm := (List.perm_cons_erase hid).flatMap_right r.supers
    unfold edgesFrom
    rw [hperm.length_eq, List.flatMap_cons, List.length_append]
  unfold measure
  rw [unvisited_setIfInBounds hplace, List.length_append, List.length_reverse, List.length_cons]
  omega

/-! ### The loop -/

/-- From every state with the invariant the loop ends, after as many rounds as its measure says and
one more at most.  It answers whether a path through unvisited classes leads from the stack to the
target. -/
theorem exists_answered (hclosed : r.SupersExist) {k : Nat} (h : Intact r target visited stack)
    (hk : measure r visited stack ≤ k) :
    ∃ rounds ≤ k + 1, ∃ found,
      (step r target)^[rounds] (running visited stack) = answered found ∧
      (found = true ↔ ∃ p ∈ stack, PathWithin r (unvisited r visited) p target) := by
  induction k generalizing visited stack with
  | zero =>
      have hempty : stack = [] := List.eq_nil_of_length_eq_zero (by unfold measure at hk; omega)
      subst hempty
      exact ⟨1, le_rfl, false, rfl, by simp⟩
  | succ k ih =>
      cases stack with
      | nil => exact ⟨1, by omega, false, rfl, by simp⟩
      | cons id rest =>
          obtain ⟨flag, hflag⟩ := h.exists_flag
          by_cases hfound : id = target
          · subst hfound
            have hunvisited : id ∈ unvisited r visited := by
              rw [mem_unvisited_iff h.flags, hflag]
              have htarget := h.target
              rw [hflag] at htarget
              simpa using htarget
            refine ⟨1, by omega, true, step_target, ?_⟩
            rw [eq_self_iff_true, true_iff]
            exact ⟨id, List.mem_cons_self, .refl hunvisited⟩
          · cases flag with
            | true =>
                have hless : measure r visited rest ≤ k := by
                  rw [measure_cons] at hk
                  omega
                obtain ⟨rounds, hrounds, found, hrun, hanswer⟩ := ih h.drop hless
                refine ⟨rounds + 1, by omega, found, ?_, hanswer.trans ?_⟩
                · rw [Function.iterate_succ_apply, step_visited hfound hflag, hrun]
                · refine (exists_pathWithin_cons_of_not_mem ?_).symm
                  rw [mem_unvisited_iff h.flags, hflag]
                  simp
            | false =>
                have hunvisited : id ∈ unvisited r visited :=
                  (mem_unvisited_iff h.flags).mpr hflag
                have hplace : id.index < visited.size := (Array.getElem?_eq_some_iff.mp hflag).1
                have hless := measure_visit hunvisited hplace rest
                obtain ⟨rounds, hrounds, found, hrun, hanswer⟩ :=
                  ih (h.visit hclosed hfound) (by omega)
                refine ⟨rounds + 1, by omega, found, ?_, hanswer.trans ?_⟩
                · rw [Function.iterate_succ_apply, step_unvisited hfound hflag, hrun]
                · rw [unvisited_setIfInBounds hplace,
                    exists_pathWithin_cons_iff (nodup_unvisited r visited) hunvisited,
                    or_iff_right hfound]

end Search

/-- How many edges the class graph has. -/
def edgeCount (r : Registry) : Nat := Search.edgesFrom r r.allClasses

/-- On every graph whose edges lead to classes, with cycles, loops, diamonds or repeated edges, the
loop ends after no more rounds than there are edges and two more.  It never meets a place without a
class, it answers as `isSubclass` does, and it answers `true` exactly when the target is reached by
zero or more edges. -/
theorem search_decides_inheritance {r : Registry} (hclosed : r.SupersExist) {a b : ClassId}
    (ha : r.HasClass a) :
    ∃ found, (∃ rounds ≤ r.edgeCount + 2,
        (Search.step r b)^[rounds] (.start r a) = .answered found) ∧
      r.isSubclass a b = found ∧ (found = true ↔ r.Inherits a b) := by
  have hstart : Search.measure r (Array.replicate r.classes.size false) [a] ≤
      r.edgeCount + 1 := by
    unfold Search.measure edgeCount
    rw [Search.unvisited_replicate, List.length_singleton]
    omega
  have hintact : Search.Intact r b (Array.replicate r.classes.size false) [a] :=
    ⟨Array.size_replicate, by simpa using ha, by simp [Array.getElem?_replicate]⟩
  obtain ⟨rounds, hrounds, found, hrun, hanswer⟩ := Search.exists_answered hclosed hintact hstart
  have hinherits : found = true ↔ r.Inherits a b := by
    rw [hanswer, Search.unvisited_replicate]
    simp only [List.mem_singleton, exists_eq_left]
    exact PathWithin.iff_inherits hclosed ha
  refine ⟨found, ⟨rounds, hrounds, hrun⟩, ?_, hinherits⟩
  rw [Bool.eq_iff_iff, isSubclass_iff_inherits hclosed ha, hinherits]

instance (r : Registry) : Decidable r.SupersExist :=
  decidable_of_iff (∀ id ∈ r.allClasses, ∀ super ∈ r.supers id, r.HasClass super) <| by
    simp only [SupersExist, mem_allClasses]

/-- A class with a repeated edge and two ways to a class that leads back to it and to itself; and
one more class, which none of them reaches. -/
def tangledRegistry : Registry :=
  { Registry.empty with
    classes := #[⟨⟨"a"⟩, [⟨1⟩, ⟨2⟩, ⟨1⟩], ⟨0⟩⟩, ⟨⟨"b"⟩, [⟨3⟩], ⟨1⟩⟩, ⟨⟨"c"⟩, [⟨3⟩], ⟨2⟩⟩,
      ⟨⟨"d"⟩, [⟨0⟩, ⟨3⟩], ⟨3⟩⟩, ⟨⟨"e"⟩, [⟨0⟩], ⟨4⟩⟩]
    wrappers := #[⟨0⟩, ⟨1⟩, ⟨2⟩, ⟨3⟩, ⟨4⟩] }

/-- The search ends although the graph has cycles: it finds the far end of the diamond, and it finds
that the last class is not reached. -/
theorem search_tangledRegistry :
    tangledRegistry.SupersExist ∧ tangledRegistry.HasClass ⟨0⟩ ∧
      (∃ rounds ≤ 10, (Search.step tangledRegistry ⟨3⟩)^[rounds] (.start tangledRegistry ⟨0⟩) =
        .answered true) ∧ tangledRegistry.Inherits ⟨0⟩ ⟨3⟩ ∧
      (∃ rounds ≤ 10, (Search.step tangledRegistry ⟨4⟩)^[rounds] (.start tangledRegistry ⟨0⟩) =
        .answered false) ∧ ¬ tangledRegistry.Inherits ⟨0⟩ ⟨4⟩ := by
  have hclosed : tangledRegistry.SupersExist := by decide +kernel
  have ha : tangledRegistry.HasClass ⟨0⟩ := by decide
  obtain ⟨found, hrun, hsearch, hinherits⟩ :=
    search_decides_inheritance hclosed (b := ⟨3⟩) ha
  obtain ⟨found', hrun', hsearch', hinherits'⟩ :=
    search_decides_inheritance hclosed (b := ⟨4⟩) ha
  obtain rfl : found = true := hsearch.symm.trans (by decide +kernel)
  obtain rfl : found' = false := hsearch'.symm.trans (by decide +kernel)
  exact ⟨hclosed, ha, hrun, hinherits.mp rfl, hrun', fun h => nomatch hinherits'.mpr h⟩

end Registry
end LispFront
