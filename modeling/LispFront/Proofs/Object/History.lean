import LispFront.Proofs.Object.CoreTables

/-!
# Histories of a registry

A registry arises from the empty one by registrations in any order, the bootstrap among them.
`Registry.Reachable` is the set of all registries that arise so, and `Registry.Booted` those whose
history has a successful bootstrap.  The main facts:

* `Reachable.consistent`: every reachable registry is consistent;
* `Booted.coreAt`: whatever was registered before and after the bootstrap, the core classes stand
  together, the core generic functions stand together, and the methods of a core generic function
  begin with the core methods registered for it.
-/

namespace LispFront
namespace Registry

/-- A registration. -/
inductive Registration where
  | makeClass (name : Symbol)
  | defineClass (name : Symbol) (supers : List ClassId)
  | addSuperclass (id super : ClassId)
  | makeGeneric (name : Symbol)
  | addMethod (generic : GenericId) (closure : Closure) (specializers : List ClassId)
  | putMethod (id : ClassId) (generic : GenericId) (closure : Closure)
  | bootstrap

namespace Registration

/-- The registry after a registration. -/
def apply : Registration → Registry → Registry
  | makeClass name, r => (Registry.makeClass name r).2
  | defineClass name supers, r => (Registry.defineClass name supers r).2
  | addSuperclass id super, r => (Registry.addSuperclass id super r).2
  | makeGeneric name, r => (Registry.makeGeneric name r).2
  | addMethod generic closure specializers, r =>
    (Registry.addMethod generic closure specializers r).2
  | putMethod id generic closure, r => (Registry.putMethod id generic closure r).2
  | bootstrap, r => (Registry.bootstrap r).2

/-- Whether the places that a registration names exist. -/
def Admissible (r : Registry) : Registration → Prop
  | makeClass _ | makeGeneric _ | bootstrap => True
  | defineClass _ supers => ∀ s ∈ supers, r.HasClass s
  | addSuperclass id super => r.HasClass id ∧ r.HasClass super
  | addMethod generic _ specializers =>
    r.HasGeneric generic ∧ ∀ s ∈ specializers, r.HasClass s
  | putMethod id generic _ => r.HasClass id ∧ r.HasGeneric generic

instance (r : Registry) : (op : Registration) → Decidable (op.Admissible r)
  | makeClass _ | makeGeneric _ | bootstrap => isTrue trivial
  | defineClass _ supers => inferInstanceAs (Decidable (∀ s ∈ supers, r.HasClass s))
  | addSuperclass id super => inferInstanceAs (Decidable (r.HasClass id ∧ r.HasClass super))
  | addMethod generic _ specializers =>
    inferInstanceAs (Decidable (r.HasGeneric generic ∧ ∀ s ∈ specializers, r.HasClass s))
  | putMethod id generic _ => inferInstanceAs (Decidable (r.HasClass id ∧ r.HasGeneric generic))

end Registration

/-- The registries that arise from the empty one by admissible registrations. -/
inductive Reachable : Registry → Prop
  | empty : Reachable Registry.empty
  | step {r : Registry} (hr : Reachable r) (op : Registration) (hop : op.Admissible r) :
      Reachable (op.apply r)

/-- The registries that arise by a history with a successful bootstrap.  Only a bootstrap puts the
core in its place. -/
structure Booted (r : Registry) : Prop where
  reachable : Reachable r
  core : ∃ core, r.core = some core

/-! ## Every history is growth, but for the bootstrap -/

/-- A registration other than the bootstrap is made of elementary ones. -/
theorem Registration.grows {r : Registry} {op : Registration} (hop : op.Admissible r)
    (hne : op ≠ .bootstrap) : Grows r (op.apply r) := by
  cases op with
  | makeClass name => exact .single (.makeClass name)
  | defineClass name supers => exact grows_defineClass name hop
  | addSuperclass id super => exact .single (.addSuperclass hop.1 hop.2)
  | makeGeneric name => exact .single (.makeGeneric name)
  | addMethod generic closure specializers =>
      exact .single (.addMethod hop.1 closure hop.2)
  | putMethod id generic closure =>
      exact .single (.addMethod hop.2 closure (by simpa using hop.1))
  | bootstrap => exact absurd rfl hne

/-- A bootstrap of a registry with a core changes nothing. -/
theorem apply_bootstrap_of_core {r : Registry} {core : Core} (h : r.core = some core) :
    Registration.bootstrap.apply r = r := by
  rw [Registration.apply, bootstrap_of_core h]

/-- A bootstrap of a registry without a core puts it in place. -/
theorem apply_bootstrap_of_none {r : Registry} (h : r.core = none) :
    Registration.bootstrap.apply r =
      r.declared.withCore (coreFrom r.classes.size r.generics.size) := by
  rw [Registration.apply, bootstrap_eq h]

/-- Consistency does not look at the core. -/
theorem Consistent.withCore {r : Registry} (h : r.Consistent) (core : Core) :
    (r.withCore core).Consistent :=
  ⟨h.wrappers, h.wrapper, h.classOfWrapper, h.supers, h.specializers⟩

/-- Every reachable registry is consistent. -/
theorem Reachable.consistent {r : Registry} (h : Reachable r) : r.Consistent := by
  induction h with
  | empty => exact consistent_empty
  | @step r _ op hop ih =>
      -- The bootstrap is the one registration that is not growth: it also sets the core.
      by_cases hboot : op = .bootstrap
      · subst hboot
        cases hcore : r.core with
        | none =>
            rw [apply_bootstrap_of_none hcore]
            exact ((grows_declared r).consistent ih).withCore _
        | some core =>
            rw [apply_bootstrap_of_core hcore]
            exact ih
      · exact (Registration.grows hop hboot).consistent ih

/-- A reachable registry has no core, or its core stands in its place. -/
theorem Reachable.coreAt {r : Registry} (h : Reachable r) :
    r.core = none ∨ ∃ n m, CoreAt r n m := by
  induction h with
  | empty => exact .inl rfl
  | @step r _ op hop ih =>
      by_cases hboot : op = .bootstrap
      · subst hboot
        rcases ih with hnone | ⟨n, m, hat⟩
        · rw [apply_bootstrap_of_none hnone]
          exact .inr ⟨_, _, coreAt_bootstrap r⟩
        · rw [apply_bootstrap_of_core hat.core]
          exact .inr ⟨n, m, hat⟩
      · have hkeeps := (Registration.grows hop hboot).keeps
        rcases ih with hnone | ⟨n, m, hat⟩
        · exact .inl (hkeeps.core.trans hnone)
        · exact .inr ⟨n, m, hat.keep hkeeps⟩

/-- In a booted registry the core stands in its place. -/
theorem Booted.coreAt {r : Registry} (h : Booted r) : ∃ n m, CoreAt r n m := by
  obtain ⟨core, hcore⟩ := h.core
  rcases h.reachable.coreAt with hnone | hat
  · rw [hnone] at hcore
    cases hcore
  · exact hat

theorem Booted.consistent {r : Registry} (h : Booted r) : r.Consistent := h.reachable.consistent

/-! ## Booted registries under further registrations -/

/-- A bootstrap of a reachable registry without a core boots it. -/
theorem Reachable.booted_bootstrap {r : Registry} (h : Reachable r) (hnone : r.core = none) :
    Booted (Registration.bootstrap.apply r) where
  reachable := .step h .bootstrap trivial
  core := by
    rw [apply_bootstrap_of_none hnone]
    exact ⟨_, rfl⟩

/-- A booted registry stays booted. -/
theorem Booted.step {r : Registry} (h : Booted r) {op : Registration} (hop : op.Admissible r) :
    Booted (op.apply r) where
  reachable := .step h.reachable op hop
  core := by
    obtain ⟨core, hcore⟩ := h.core
    by_cases hboot : op = .bootstrap
    · subst hboot
      rw [apply_bootstrap_of_core hcore]
      exact ⟨core, hcore⟩
    · exact ⟨core, (Registration.grows hop hboot).keeps.core.trans hcore⟩

namespace Registration

/-- Registrations one after the other. -/
def applyAll : List Registration → Registry → Registry
  | [], r => r
  | op :: ops, r => applyAll ops (op.apply r)

/-- Whether every registration is admissible when its turn comes. -/
def AllAdmissible : Registry → List Registration → Prop
  | _, [] => True
  | r, op :: ops => op.Admissible r ∧ AllAdmissible (op.apply r) ops

instance decidableAllAdmissible :
    (r : Registry) → (ops : List Registration) → Decidable (AllAdmissible r ops)
  | _, [] => isTrue trivial
  | r, op :: ops =>
    have := decidableAllAdmissible (op.apply r) ops
    inferInstanceAs (Decidable (op.Admissible r ∧ AllAdmissible (op.apply r) ops))

end Registration

/-- A booted registry stays booted under any number of registrations. -/
theorem Booted.steps {r : Registry} (h : Booted r) {ops : List Registration}
    (hops : Registration.AllAdmissible r ops) : Booted (Registration.applyAll ops r) := by
  induction ops generalizing r with
  | nil => exact h
  | cons op ops ih => exact ih (h.step hops.1) hops.2

/-- The registry with nothing but its core. -/
def coreOnly : Registry := Registration.bootstrap.apply .empty

theorem booted_coreOnly : Booted coreOnly := Reachable.empty.booted_bootstrap rfl

end Registry
end LispFront
