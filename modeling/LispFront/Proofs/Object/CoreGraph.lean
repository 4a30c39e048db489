import LispFront.Proofs.Object.CoreSend
import LispFront.Proofs.Object.Extension

/-!
# Core classes that are left alone

After a bootstrap a core class may still get more superclasses, and then syntax objects inherit from
whatever a user likes.  `CoreIntact` describes the histories in which that does not happen, with all
other registrations free.  In them the core classes have the superclasses of `coreClassTable` and no
others (`CoreExact`), so that it is known what each of them inherits from.
-/

namespace LispFront

/-- All core classes. -/
def CoreClasses.all (c : CoreClasses) : List ClassId :=
  [c.object, c.nil, c.symbol, c.string, c.number, c.closure, c.classObject, c.generic,
    c.syntaxObject, c.syntaxSymbol, c.syntaxString, c.syntaxNumber, c.syntaxList]

namespace Registry

variable {r : Registry} {n m : Nat}

/-- The places of the core classes are those of the table. -/
theorem mem_all_coreClassesFrom {i : Nat} (hi : i < 13) : ⟨n + i⟩ ∈ (coreClassesFrom n).all := by
  interval_cases i <;> simp [CoreClasses.all, coreClassesFrom]

/-- Whether a registration gives no core class a superclass. -/
def Registration.SparesCore (r : Registry) : Registration → Prop
  | .addSuperclass id _ => ∀ core ∈ r.core, id ∉ core.classes.all
  | _ => True

instance (r : Registry) : (op : Registration) → Decidable (op.SparesCore r)
  | .addSuperclass id _ => inferInstanceAs (Decidable (∀ core ∈ r.core, id ∉ core.classes.all))
  | .makeClass _ | .defineClass .. | .makeGeneric _ | .addMethod .. | .putMethod .. | .bootstrap =>
    isTrue trivial

/-- The registries that arise by a history with a successful bootstrap, after which no core class
gets a superclass.  Before the bootstrap there are no core classes. -/
inductive CoreIntact : Registry → Prop
  | bootstrap {r : Registry} (hr : Reachable r) (hnone : r.core = none) :
      CoreIntact (Registration.bootstrap.apply r)
  | step {r : Registry} (hr : CoreIntact r) (op : Registration) (hop : op.Admissible r)
      (hspares : op.SparesCore r) : CoreIntact (op.apply r)

theorem CoreIntact.booted (h : CoreIntact r) : r.Booted := by
  induction h with
  | bootstrap hr hnone => exact hr.booted_bootstrap hnone
  | step _ op hop _ ih => exact ih.step hop

namespace Registration

/-- Whether no registration gives a core class a superclass when its turn comes. -/
def AllSpareCore : Registry → List Registration → Prop
  | _, [] => True
  | r, op :: ops => op.SparesCore r ∧ AllSpareCore (op.apply r) ops

instance decidableAllSpareCore :
    (r : Registry) → (ops : List Registration) → Decidable (AllSpareCore r ops)
  | _, [] => isTrue trivial
  | r, op :: ops =>
    have := decidableAllSpareCore (op.apply r) ops
    inferInstanceAs (Decidable (op.SparesCore r ∧ AllSpareCore (op.apply r) ops))

end Registration

theorem coreIntact_coreOnly : CoreIntact coreOnly := .bootstrap .empty rfl

theorem CoreIntact.steps (h : CoreIntact r) {ops : List Registration}
    (hops : Registration.AllAdmissible r ops) (hspare : Registration.AllSpareCore r ops) :
    CoreIntact (Registration.applyAll ops r) := by
  induction ops generalizing r with
  | nil => exact h
  | cons op ops ih => exact ih (h.step op hops.1 hspare.1) hops.2 hspare.2

/-! ## What the core classes inherit from -/

/-- Superclasses do not depend on the core. -/
theorem supers_withCore (r : Registry) (core : Core) (id : ClassId) :
    (r.withCore core).supers id = r.supers id := rfl

/-- The core stands in its place, and its classes have the superclasses of the table only. -/
structure CoreExact (r : Registry) (n m : Nat) : Prop extends CoreAt r n m where
  supers : ∀ i name supers, (coreClassTable n)[i]? = some (name, supers) →
    r.supers ⟨n + i⟩ = supers

theorem CoreIntact.exists_coreExact (h : CoreIntact r) : ∃ n m, CoreExact r n m := by
  induction h with
  | @bootstrap r hr hnone =>
      rw [apply_bootstrap_of_none hnone]
      refine ⟨r.classes.size, r.generics.size, coreAt_bootstrap r, fun i name supers hi => ?_⟩
      rw [supers_withCore, supers_declared hi]
  | @step r hr op hop hspares ih =>
      obtain ⟨n, m, hat⟩ := ih
      refine ⟨n, m, hat.keep (keeps_apply hr.booted hop), fun i name supers hi => ?_⟩
      have hlt : i < 13 := (List.getElem?_eq_some_iff.mp hi).1
      rw [supers_apply hr.booted hop (hat.hasClass hlt), hat.supers i name supers hi]
      rintro super rfl
      exact hspares _ hat.core (mem_all_coreClassesFrom hlt)

/-- The class of a syntax object inherits from itself, `<syntax>` and `<object>`. -/
theorem CoreExact.eq_of_inherits (h : CoreExact r n m) (x : Syntax) {c : ClassId}
    (hinherits : r.Inherits ⟨n + x.classIndex⟩ c) :
    c = ⟨n + x.classIndex⟩ ∨ c = ⟨n + 1⟩ ∨ c = ⟨n⟩ := by
  have hself : r.supers ⟨n + x.classIndex⟩ = [⟨n + 1⟩] := by
    cases x <;> exact h.supers _ _ _ rfl
  have hparent : r.supers ⟨n + 1⟩ = [⟨n⟩] := h.supers 1 _ _ rfl
  have hobject : r.supers ⟨n⟩ = [] := h.supers 0 _ _ rfl
  induction hinherits with
  | refl => exact .inl rfl
  | tail _ hedge ih =>
      unfold IsDirectSuper at hedge
      rcases ih with rfl | rfl | rfl
      · rw [hself] at hedge
        exact .inr (.inl (List.mem_singleton.mp hedge))
      · rw [hparent] at hedge
        exact .inr (.inr (List.mem_singleton.mp hedge))
      · rw [hobject] at hedge
        exact absurd hedge List.not_mem_nil

end Registry
end LispFront
