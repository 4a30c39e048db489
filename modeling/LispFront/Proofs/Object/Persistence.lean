import LispFront.Proofs.Object.Dispatch
import LispFront.Proofs.Object.NameTables

/-!
# What a history of registrations keeps

Registrations only add: `Registry.Retains` says that from one registry to another no class and no
generic function was lost or renamed, that no class changed its wrapper, and that lists of
superclasses and of methods got new elements at their end only.  Every registration retains, the
bootstrap included (`Registration.retains`), and so does every history (`retains_applyAll`).  The
core is there exactly when a bootstrap is among the registrations, and from then on it stays.
-/

namespace LispFront
namespace Registry

/-- Setting the core touches none of the tables. -/
theorem Retains.withCore {r r' : Registry} (h : Retains r r') (core : Core) :
    Retains r (r'.withCore core) :=
  ⟨h.classes, h.generics, h.className, h.classWrapper, h.supers, h.genericName, h.methods⟩

variable {r : Registry} {op : Registration} {ops : List Registration}

/-- Every registration retains what there is, the bootstrap included. -/
theorem Registration.retains (hop : op.Admissible r) : Retains r (op.apply r) := by
  by_cases hboot : op = .bootstrap
  · subst hboot
    cases hcore : r.core with
    | none =>
        rw [apply_bootstrap_of_none hcore]
        exact (grows_declared r).keeps.toRetains.withCore _
    | some core =>
        rw [apply_bootstrap_of_core hcore]
        exact .refl r
  · exact (Registration.grows hop hboot).keeps.toRetains

/-- Registrations one after the other retain what there is. -/
theorem retains_applyAll (hops : Registration.AllAdmissible r ops) :
    Retains r (Registration.applyAll ops r) := by
  induction ops generalizing r with
  | nil => exact .refl r
  | cons op ops ih => exact (Registration.retains hops.1).trans (ih hops.2)

/-- A reachable registry stays reachable under any number of registrations. -/
theorem Reachable.steps (h : Reachable r) (hops : Registration.AllAdmissible r ops) :
    Reachable (Registration.applyAll ops r) := by
  induction ops generalizing r with
  | nil => exact h
  | cons op ops ih => exact ih (h.step op hops.1) hops.2

/-! ## The core over a history -/

/-- A core that is there stays as it is. -/
theorem core_applyAll_of_some {core : Core} (hcore : r.core = some core)
    (hops : Registration.AllAdmissible r ops) :
    (Registration.applyAll ops r).core = some core := by
  induction ops generalizing r with
  | nil => exact hcore
  | cons op ops ih =>
      refine ih ?_ hops.2
      by_cases hboot : op = .bootstrap
      · subst hboot
        rw [apply_bootstrap_of_core hcore]
        exact hcore
      · exact (Registration.grows hops.1 hboot).keeps.core.trans hcore

/-- Without a bootstrap no registration sets the core. -/
theorem core_applyAll_of_not_mem (hnone : Registration.bootstrap ∉ ops)
    (hops : Registration.AllAdmissible r ops) : (Registration.applyAll ops r).core = r.core := by
  induction ops generalizing r with
  | nil => rfl
  | cons op ops ih =>
      rw [List.mem_cons, not_or] at hnone
      exact (ih hnone.2 hops.2).trans (Registration.grows hops.1 (Ne.symm hnone.1)).keeps.core

/-- After a bootstrap the core is there, whether it was set now or before. -/
theorem exists_core_bootstrap (r : Registry) :
    ∃ core, (Registration.bootstrap.apply r).core = some core := by
  cases hcore : r.core with
  | none =>
      rw [apply_bootstrap_of_none hcore]
      exact ⟨_, rfl⟩
  | some core =>
      rw [apply_bootstrap_of_core hcore]
      exact ⟨core, hcore⟩

/-- With a bootstrap among the registrations the core is there after them. -/
theorem exists_core_of_mem (hmem : Registration.bootstrap ∈ ops)
    (hops : Registration.AllAdmissible r ops) :
    ∃ core, (Registration.applyAll ops r).core = some core := by
  induction ops generalizing r with
  | nil => cases hmem
  | cons op ops ih =>
      rcases List.mem_cons.mp hmem with rfl | hlater
      · obtain ⟨core, hcore⟩ := exists_core_bootstrap r
        have hstays :
            (Registration.applyAll ops (Registration.bootstrap.apply r)).core = some core :=
          core_applyAll_of_some hcore hops.2
        exact ⟨core, hstays⟩
      · exact ih hlater hops.2

/-! ## Objects over a history -/

/-- An object keeps the class that it was made of. -/
theorem Retains.classOf_makeObject {r' : Registry} (h : Retains r r') (hr' : r'.Consistent)
    {core : Core} (hcore : r'.core = some core) {id : ClassId} (hid : r.HasClass id)
    (payload : Value) : r'.classOf (r.makeObject id payload) = .ok id := by
  have hplace : r'.HasClass id := h.hasClass hid
  rw [classOf_eq hcore]
  show Except.ok (r'.getWrapper (r.getClass id).wrapper) = _
  rw [← h.classWrapper id hid, hr'.wrapper id hplace, hr'.classOfWrapper id hplace]

/-- Over every history of registrations, with bootstraps anywhere in it, the tables of a registry
stay in step.  Whatever `earlier` registrations led to `r` and whatever `later` ones to `r'`:

* in `r'` every class is the class of its own wrapper, no two classes share a wrapper, and there are
  as many wrappers as classes; a name is found at its greatest place, and not found only if no entry
  has it;
* `r'` retains what is in `r`, and an object made in `r` has its class in `r'` once the core is
  there;
* the first bootstrap succeeds; every later one is refused, changes nothing, and the core that the
  first has set stays. -/
theorem history_keeps_tables {earlier later : List Registration}
    (hearlier : Registration.AllAdmissible .empty earlier)
    (hlater : Registration.AllAdmissible (Registration.applyAll earlier .empty) later) :
    let r := Registration.applyAll earlier .empty
    let r' := Registration.applyAll later r
    (∀ id, r'.HasClass id → r'.getWrapper (r'.getClass id).wrapper = id) ∧
    (∀ a b, r'.HasClass a → r'.HasClass b →
      (r'.getClass a).wrapper = (r'.getClass b).wrapper → a = b) ∧
    r'.wrappers.size = r'.classes.size ∧
    (∀ name id, r'.findClass name = some id ↔ r'.IsLatestClass name id) ∧
    (∀ name, r'.findClass name = none ↔ ∀ id, r'.HasClass id → (r'.getClass id).name ≠ name) ∧
    (∀ name id, r'.findGeneric name = some id ↔ r'.IsLatestGeneric name id) ∧
    (∀ name, r'.findGeneric name = none ↔
      ∀ id, r'.HasGeneric id → (r'.getGeneric id).name ≠ name) ∧
    Retains r r' ∧
    (∀ core id payload, r'.core = some core → r.HasClass id →
      r'.classOf (r.makeObject id payload) = .ok id) ∧
    (.bootstrap ∉ earlier → ∃ booted : Registry,
      bootstrap r = (.ok (), booted) ∧ booted.Booted) ∧
    (.bootstrap ∈ earlier → bootstrap r = (.error .alreadyBootstrapped, r) ∧
      ∃ core, r.core = some core ∧ r'.core = some core) := by
  intro r r'
  have hr : Reachable r := Reachable.empty.steps hearlier
  have hr' : Reachable r' := hr.steps hlater
  have hretains : Retains r r' := retains_applyAll hlater
  have hself (id : ClassId) (hid : r'.HasClass id) :
      r'.getWrapper (r'.getClass id).wrapper = id := by
    rw [hr'.consistent.wrapper id hid]
    exact hr'.consistent.classOfWrapper id hid
  refine ⟨hself, ?_, hr'.consistent.wrappers, fun _ _ => hr'.findClass_eq_some_iff,
    fun _ => hr'.findClass_eq_none_iff, fun _ _ => hr'.findGeneric_eq_some_iff,
    fun _ => hr'.findGeneric_eq_none_iff, hretains, ?_, ?_, ?_⟩
  -- Two classes with one wrapper are both the class of that wrapper.
  · intro a b ha hb hwrapper
    rw [← hself a ha, ← hself b hb, hwrapper]
  · intro core id payload hcore hid
    exact hretains.classOf_makeObject hr'.consistent hcore hid payload
  · intro hnone
    have hcore : r.core = none := core_applyAll_of_not_mem hnone hearlier
    have hbooted := hr.booted_bootstrap hcore
    rw [apply_bootstrap_of_none hcore] at hbooted
    exact ⟨_, bootstrap_eq hcore, hbooted⟩
  · intro hmem
    obtain ⟨core, hcore⟩ := exists_core_of_mem hmem hearlier
    have hcore' : r.core = some core := hcore
    exact ⟨bootstrap_of_core hcore', core, hcore', core_applyAll_of_some hcore' hlater⟩

/-- A class with the name of a core class before the bootstrap and another after it, with a loop and
a bootstrap that comes too late. -/
theorem history_keeps_tables_rebound :
    let earlier : List Registration :=
      [.makeClass ⟨"<object>"⟩, .makeGeneric ⟨"add"⟩, .bootstrap, .defineClass ⟨"point"⟩ [⟨1⟩]]
    let later : List Registration :=
      [.addSuperclass ⟨1⟩ ⟨14⟩, .bootstrap, .makeClass ⟨"<object>"⟩,
        .putMethod ⟨14⟩ ⟨0⟩ ⟨.user "m", .nil⟩]
    let r := Registration.applyAll earlier .empty
    let r' := Registration.applyAll later r
    Registration.AllAdmissible .empty earlier ∧ Registration.AllAdmissible r later ∧
      r'.IsLatestClass ⟨"<object>"⟩ ⟨15⟩ ∧
      r'.classOf (r.makeObject ⟨14⟩ .nil) = .ok ⟨14⟩ ∧
      bootstrap r = (.error .alreadyBootstrapped, r) := by
  intro earlier later r r'
  have hearlier : Registration.AllAdmissible .empty earlier := by decide +kernel
  have hlater : Registration.AllAdmissible r later := by decide +kernel
  obtain ⟨-, -, -, hclass, -, -, -, -, hobject, -, hbooted⟩ := history_keeps_tables hearlier hlater
  have hmem : Registration.bootstrap ∈ earlier := by simp [earlier]
  obtain ⟨hrefused, core, -, hcore⟩ := hbooted hmem
  refine ⟨hearlier, hlater, (hclass _ _).mp (by decide +kernel), ?_, hrefused⟩
  exact hobject core ⟨14⟩ .nil hcore (by decide +kernel)

end Registry
end LispFront
