import LispFront.Object.Bootstrap
import LispFront.Proofs.Object.Inheritance

/-!
# Growth of a registry

Every registration is made of four elementary steps: a new class, a new edge between classes, a new
generic function, a new method.  This module says what one step does to the tables, and from that
two facts about any number of steps:

* `Registry.Grows.keeps`: names and wrappers stay, lists of superclasses and of methods only grow
  at their end, and the core stays as it is;
* `Registry.Grows.consistent`: classes and wrappers stay in step with each other, and whatever a
  table refers to exists.
-/

namespace LispFront
namespace Registry

/-- The place holds a generic function. -/
def HasGeneric (r : Registry) (id : GenericId) : Prop := id.index < r.generics.size

instance (r : Registry) (id : GenericId) : Decidable (r.HasGeneric id) :=
  inferInstanceAs (Decidable (id.index < r.generics.size))

/-! ## What the elementary registrations do to the tables -/

private theorem generic_index_ne {id other : GenericId} (h : id ≠ other) :
    id.index ≠ other.index :=
  fun heq => h (congrArg GenericId.mk heq)

/-- A new edge changes the superclasses of one class, and nothing else. -/
theorem getClass_addSuperclass {r : Registry} {id : ClassId} (h : r.HasClass id)
    (super other : ClassId) : (addSuperclass id super r).2.getClass other =
      { r.getClass other with
        supers := if other = id then r.supers id ++ [super] else r.supers other } := by
  have hcell : id.index < r.classes.size := h
  by_cases hother : other = id
  · subst hother
    simp [addSuperclass, getClass, supers, Array.getElem_modify, hcell]
  · simp [addSuperclass, getClass, supers, Array.getElem?_modify, hother,
      ClassId.index_ne (Ne.symm hother)]

@[simp] theorem size_classes_addSuperclass (id super : ClassId) (r : Registry) :
    (addSuperclass id super r).2.classes.size = r.classes.size := by
  simp [addSuperclass]

theorem getGeneric_makeGeneric_self (name : Symbol) (r : Registry) :
    (makeGeneric name r).2.getGeneric (makeGeneric name r).1 = ⟨name, []⟩ := by
  simp [makeGeneric, getGeneric]

theorem getGeneric_makeGeneric_of_lt {r : Registry} {id : GenericId} (h : r.HasGeneric id)
    (name : Symbol) : (makeGeneric name r).2.getGeneric id = r.getGeneric id := by
  have hne : id.index ≠ r.generics.size := Nat.ne_of_lt h
  simp [makeGeneric, getGeneric, Array.getElem?_push, hne]

@[simp] theorem size_generics_makeGeneric (name : Symbol) (r : Registry) :
    (makeGeneric name r).2.generics.size = r.generics.size + 1 := by
  simp [makeGeneric]

/-- A new method changes the methods of one generic function, and nothing else. -/
theorem getGeneric_addMethod {r : Registry} {id : GenericId} (h : r.HasGeneric id)
    (closure : Closure) (specializers : List ClassId) (other : GenericId) :
    (addMethod id closure specializers r).2.getGeneric other =
      { r.getGeneric other with
        methods := if other = id then (r.getGeneric id).methods ++ [⟨closure, specializers⟩]
          else (r.getGeneric other).methods } := by
  have hcell : id.index < r.generics.size := h
  by_cases hother : other = id
  · subst hother
    simp [addMethod, getGeneric, Array.getElem_modify, hcell]
  · simp [addMethod, getGeneric, Array.getElem?_modify, hother, generic_index_ne (Ne.symm hother)]

@[simp] theorem size_generics_addMethod (id : GenericId) (closure : Closure)
    (specializers : List ClassId) (r : Registry) :
    (addMethod id closure specializers r).2.generics.size = r.generics.size := by
  simp [addMethod]

/-! ## Steps -/

/-- One elementary registration; every place that it names exists. -/
inductive Step (r : Registry) : Registry → Prop
  | makeClass (name : Symbol) : Step r (makeClass name r).2
  | addSuperclass {id super : ClassId} (hid : r.HasClass id) (hsuper : r.HasClass super) :
      Step r (addSuperclass id super r).2
  | makeGeneric (name : Symbol) : Step r (makeGeneric name r).2
  | addMethod {id : GenericId} (hid : r.HasGeneric id) (closure : Closure)
      {specializers : List ClassId} (hspecializers : ∀ s ∈ specializers, r.HasClass s) :
      Step r (addMethod id closure specializers r).2

/-- Any number of elementary registrations, one after the other. -/
def Grows : Registry → Registry → Prop := Relation.ReflTransGen Step

/-- What is in the first registry is in the second: names and wrappers stay, and lists of
superclasses and of methods only grow at their end. -/
structure Retains (r r' : Registry) : Prop where
  classes : r.classes.size ≤ r'.classes.size
  generics : r.generics.size ≤ r'.generics.size
  className : ∀ id, r.HasClass id → (r'.getClass id).name = (r.getClass id).name
  classWrapper : ∀ id, r.HasClass id → (r'.getClass id).wrapper = (r.getClass id).wrapper
  supers : ∀ id, r.HasClass id → r.supers id <+: r'.supers id
  genericName : ∀ id, r.HasGeneric id → (r'.getGeneric id).name = (r.getGeneric id).name
  methods : ∀ id, r.HasGeneric id → (r.getGeneric id).methods <+: (r'.getGeneric id).methods

namespace Retains

variable {r r' r'' : Registry}

theorem refl (r : Registry) : Retains r r where
  classes := Nat.le_refl _
  generics := Nat.le_refl _
  className _ _ := rfl
  classWrapper _ _ := rfl
  supers _ _ := List.prefix_rfl
  genericName _ _ := rfl
  methods _ _ := List.prefix_rfl

theorem hasClass (h : Retains r r') {id : ClassId} (hid : r.HasClass id) : r'.HasClass id :=
  Nat.lt_of_lt_of_le hid h.classes

theorem hasGeneric (h : Retains r r') {id : GenericId} (hid : r.HasGeneric id) :
    r'.HasGeneric id :=
  Nat.lt_of_lt_of_le hid h.generics

theorem trans (h : Retains r r') (h' : Retains r' r'') : Retains r r'' where
  classes := h.classes.trans h'.classes
  generics := h.generics.trans h'.generics
  className id hid := (h'.className id (h.hasClass hid)).trans (h.className id hid)
  classWrapper id hid := (h'.classWrapper id (h.hasClass hid)).trans (h.classWrapper id hid)
  supers id hid := (h.supers id hid).trans (h'.supers id (h.hasClass hid))
  genericName id hid := (h'.genericName id (h.hasGeneric hid)).trans (h.genericName id hid)
  methods id hid := (h.methods id hid).trans (h'.methods id (h.hasGeneric hid))

end Retains

/-- What registrations other than the bootstrap leave as it is: all of the above, and the core. -/
structure Keeps (r r' : Registry) : Prop extends Retains r r' where
  core : r'.core = r.core

namespace Keeps

variable {r r' r'' : Registry}

theorem refl (r : Registry) : Keeps r r := ⟨.refl r, rfl⟩

theorem trans (h : Keeps r r') (h' : Keeps r' r'') : Keeps r r'' :=
  ⟨h.toRetains.trans h'.toRetains, h'.core.trans h.core⟩

end Keeps

/-- One step keeps everything that `Keeps` lists. -/
theorem Step.keeps {r r' : Registry} (h : Step r r') : Keeps r r' := by
  cases h with
  | makeClass name =>
      have hsame (id : ClassId) (hid : r.HasClass id) :
          (Registry.makeClass name r).2.getClass id = r.getClass id :=
        getClass_makeClass_of_lt hid name
      exact { Keeps.refl r with
        classes := by simp
        className := fun id hid => by rw [hsame id hid]
        classWrapper := fun id hid => by rw [hsame id hid]
        supers := fun id hid => by
          have heq : r.supers id = (Registry.makeClass name r).2.supers id :=
            congrArg Class.supers (hsame id hid).symm
          exact heq ▸ List.prefix_rfl }
  | @addSuperclass id super hid hsuper =>
      have hclass := getClass_addSuperclass hid super
      exact { Keeps.refl r with
        classes := by simp
        className := fun other _ => by rw [hclass other]
        classWrapper := fun other _ => by rw [hclass other]
        supers := fun other _ => by
          show r.supers other <+: ((Registry.addSuperclass id super r).2.getClass other).supers
          rw [hclass other]
          split
          · rename_i heq
            subst heq
            exact List.prefix_append _ _
          · exact List.prefix_rfl }
  | makeGeneric name =>
      have hsame (id : GenericId) (hid : r.HasGeneric id) :
          (Registry.makeGeneric name r).2.getGeneric id = r.getGeneric id :=
        getGeneric_makeGeneric_of_lt hid name
      exact { Keeps.refl r with
        generics := by simp
        genericName := fun id hid => by rw [hsame id hid]
        methods := fun id hid => (hsame id hid).symm ▸ List.prefix_rfl }
  | @addMethod id hid closure specializers hspecializers =>
      have hgeneric := getGeneric_addMethod hid closure specializers
      exact { Keeps.refl r with
        generics := by simp
        genericName := fun other _ => by rw [hgeneric other]
        methods := fun other _ => by
          rw [hgeneric other]
          split
          · rename_i heq
            subst heq
            exact List.prefix_append _ _
          · exact List.prefix_rfl }

/-- Any number of steps keeps everything that `Keeps` lists. -/
theorem Grows.keeps {r r' : Registry} (h : Grows r r') : Keeps r r' := by
  induction h with
  | refl => exact Keeps.refl r
  | tail _ hstep ih => exact ih.trans hstep.keeps

/-! ## Consistency -/

/-- Classes and wrappers are numbered alike, and whatever a table refers to exists. -/
structure Consistent (r : Registry) : Prop where
  wrappers : r.wrappers.size = r.classes.size
  wrapper : ∀ id, r.HasClass id → (r.getClass id).wrapper = ⟨id.index⟩
  classOfWrapper : ∀ id, r.HasClass id → r.getWrapper ⟨id.index⟩ = id
  supers : r.SupersExist
  specializers : ∀ id, ∀ entry ∈ (r.getGeneric id).methods, ∀ s ∈ entry.specializers, r.HasClass s

theorem consistent_empty : Consistent empty where
  wrappers := rfl
  wrapper _ h := absurd h (Nat.not_lt_zero _)
  classOfWrapper _ h := absurd h (Nat.not_lt_zero _)
  supers _ h := absurd h (Nat.not_lt_zero _)
  specializers id entry h := by simp [getGeneric, empty] at h

/-- A place of the registry with one more class is an old place or the new one. -/
theorem hasClass_makeClass_iff (name : Symbol) (r : Registry) (id : ClassId) :
    (makeClass name r).2.HasClass id ↔ r.HasClass id ∨ id = ⟨r.classes.size⟩ := by
  unfold HasClass
  rw [size_classes_makeClass, Nat.lt_succ_iff_lt_or_eq]
  constructor
  · rintro (hlt | heq)
    · exact .inl hlt
    · exact .inr (by cases id; simp_all)
  · rintro (hlt | rfl)
    · exact .inl hlt
    · exact .inr rfl

private theorem consistent_makeClass {r : Registry} (h : r.Consistent) (name : Symbol) :
    (makeClass name r).2.Consistent where
  wrappers := by simp [makeClass, h.wrappers]
  wrapper id hid := by
    rcases (hasClass_makeClass_iff name r id).mp hid with hold | rfl
    · rw [getClass_makeClass_of_lt hold name]
      exact h.wrapper id hold
    · have hself := getClass_makeClass_self name r
      rw [makeClass_fst] at hself
      rw [hself, h.wrappers]
  classOfWrapper id hid := by
    rcases (hasClass_makeClass_iff name r id).mp hid with hold | rfl
    · have hne : id.index ≠ r.wrappers.size := by
        rw [h.wrappers]
        exact Nat.ne_of_lt hold
      have hold' := h.classOfWrapper id hold
      simpa [makeClass, getWrapper, Array.getElem?_push, hne] using hold'
    · simp [makeClass, getWrapper, ← h.wrappers]
  supers id hid super hsuper := by
    refine (hasClass_makeClass_iff name r super).mpr (.inl ?_)
    unfold Registry.supers at hsuper
    rcases (hasClass_makeClass_iff name r id).mp hid with hold | rfl
    · rw [getClass_makeClass_of_lt hold name] at hsuper
      exact h.supers id hold super hsuper
    · have hself := getClass_makeClass_self name r
      rw [makeClass_fst] at hself
      simp [hself] at hsuper
  specializers id entry hentry s hs :=
    (hasClass_makeClass_iff name r s).mpr (.inl (h.specializers id entry hentry s hs))

private theorem consistent_addSuperclass {r : Registry} (h : r.Consistent) {id super : ClassId}
    (hid : r.HasClass id) (hsuper : r.HasClass super) :
    (addSuperclass id super r).2.Consistent := by
  have hhas (other : ClassId) :
      (addSuperclass id super r).2.HasClass other ↔ r.HasClass other := by
    simp [HasClass]
  have hclass := getClass_addSuperclass hid super
  refine ⟨?_, ?_, ?_, ?_, ?_⟩
  · rw [size_classes_addSuperclass]
    exact h.wrappers
  · intro other hother
    rw [hclass other]
    exact h.wrapper other ((hhas other).mp hother)
  · intro other hother
    exact h.classOfWrapper other ((hhas other).mp hother)
  · intro other hother s hs
    rw [hhas]
    unfold Registry.supers at hs
    rw [hclass other] at hs
    split at hs
    · rcases List.mem_append.mp hs with hold | hnew
      · exact h.supers id hid s hold
      · exact List.mem_singleton.mp hnew ▸ hsuper
    · exact h.supers other ((hhas other).mp hother) s hs
  · intro g entry hentry s hs
    exact (hhas s).mpr (h.specializers g entry hentry s hs)

private theorem consistent_makeGeneric {r : Registry} (h : r.Consistent) (name : Symbol) :
    (makeGeneric name r).2.Consistent where
  wrappers := h.wrappers
  wrapper := h.wrapper
  classOfWrapper := h.classOfWrapper
  supers := h.supers
  specializers id entry hentry s hs := by
    by_cases hold : r.HasGeneric id
    · rw [getGeneric_makeGeneric_of_lt hold name] at hentry
      exact h.specializers id entry hentry s hs
    -- A place that was not there before holds the new generic function or none.
    · have hempty : ((makeGeneric name r).2.getGeneric id).methods = [] := by
        unfold HasGeneric at hold
        rcases Nat.lt_or_eq_of_le (Nat.le_of_not_lt hold) with hlt | heq
        · simp [makeGeneric, getGeneric, Array.getElem?_push, Nat.ne_of_gt hlt,
            Array.getElem?_eq_none (Nat.le_of_lt hlt)]
        · simp [makeGeneric, getGeneric, ← heq]
      simp [hempty] at hentry

private theorem consistent_addMethod {r : Registry} (h : r.Consistent) {id : GenericId}
    (hid : r.HasGeneric id) (closure : Closure) {specializers : List ClassId}
    (hspecializers : ∀ s ∈ specializers, r.HasClass s) :
    (addMethod id closure specializers r).2.Consistent where
  wrappers := h.wrappers
  wrapper := h.wrapper
  classOfWrapper := h.classOfWrapper
  supers := h.supers
  specializers other entry hentry s hs := by
    rw [getGeneric_addMethod hid closure specializers other] at hentry
    split at hentry
    · rcases List.mem_append.mp hentry with hold | hnew
      · exact h.specializers id entry hold s hs
      · rw [List.mem_singleton.mp hnew] at hs
        exact hspecializers s hs
    · exact h.specializers other entry hentry s hs

/-- One step keeps a registry consistent. -/
theorem Step.consistent {r r' : Registry} (h : Step r r') (hr : r.Consistent) : r'.Consistent := by
  cases h with
  | makeClass name => exact consistent_makeClass hr name
  | addSuperclass hid hsuper => exact consistent_addSuperclass hr hid hsuper
  | makeGeneric name => exact consistent_makeGeneric hr name
  | addMethod hid closure hspecializers => exact consistent_addMethod hr hid closure hspecializers

/-- Any number of steps keeps a registry consistent. -/
theorem Grows.consistent {r r' : Registry} (h : Grows r r') (hr : r.Consistent) :
    r'.Consistent := by
  induction h with
  | refl => exact hr
  | tail _ hstep ih => exact hstep.consistent ih

end Registry
end LispFront
