import LispFront.Object.Subclass
import Mathlib.Data.List.Nodup
import Mathlib.Data.List.TakeWhile
import Mathlib.Logic.Relation

/-!
# Inheritance decided by search

`Registry.Inherits` is the mathematical relation: zero or more edges from a class to a direct
superclass.  The search of `Registry.isSubclass` keeps a list of unvisited classes and a list of
pending ones.  It is compared with the relation through paths that stay inside a list of classes:
visiting a class takes it out of that list, and every path that passed it can be cut behind its
last visit.  No assumption on the shape of the graph is made; cycles and loops are allowed.
-/

namespace LispFront

/-- Different classes have different places. -/
theorem ClassId.index_ne {id other : ClassId} (h : id ≠ other) : id.index ≠ other.index :=
  fun heq => h (congrArg ClassId.mk heq)

namespace Registry

/-- The edges of the class graph: `b` is a direct superclass of `a`. -/
def IsDirectSuper (r : Registry) (a b : ClassId) : Prop := b ∈ r.supers a

/-- The class `a` is `b` or has it among its direct and indirect superclasses. -/
def Inherits (r : Registry) : ClassId → ClassId → Prop :=
  Relation.ReflTransGen r.IsDirectSuper

/-- The place holds a class. -/
def HasClass (r : Registry) (id : ClassId) : Prop := id.index < r.classes.size

instance (r : Registry) (id : ClassId) : Decidable (r.HasClass id) :=
  inferInstanceAs (Decidable (id.index < r.classes.size))

/-- Every direct superclass of a class is a class itself. -/
def SupersExist (r : Registry) : Prop :=
  ∀ id, r.HasClass id → ∀ super ∈ r.supers id, r.HasClass super

@[simp] theorem mem_allClasses (r : Registry) (id : ClassId) :
    id ∈ r.allClasses ↔ r.HasClass id := by
  constructor
  · intro h
    obtain ⟨index, hindex, rfl⟩ := List.mem_map.mp h
    exact List.mem_range.mp hindex
  · intro h
    exact List.mem_map.mpr ⟨id.index, List.mem_range.mpr h, rfl⟩

theorem nodup_allClasses (r : Registry) : r.allClasses.Nodup := by
  unfold allClasses
  refine List.Nodup.map ?_ List.nodup_range
  intro i j h
  exact congrArg ClassId.index h

theorem length_allClasses (r : Registry) : r.allClasses.length = r.classes.size := by
  simp [allClasses]

/-- What a class inherits from exists when the class does. -/
theorem Inherits.hasClass {r : Registry} (hclosed : r.SupersExist) {a b : ClassId}
    (h : r.Inherits a b) (ha : r.HasClass a) : r.HasClass b := by
  induction h with
  | refl => exact ha
  | tail _ hedge ih => exact hclosed _ ih _ hedge

/-! ## Paths inside a list of classes -/

/-- A path of superclass edges all of whose classes, both ends included, are in the list. -/
inductive PathWithin (r : Registry) (inside : List ClassId) : ClassId → ClassId → Prop
  | refl {a : ClassId} (ha : a ∈ inside) : PathWithin r inside a a
  | step {a c b : ClassId} (ha : a ∈ inside) (hedge : r.IsDirectSuper a c)
      (hrest : PathWithin r inside c b) : PathWithin r inside a b

namespace PathWithin

variable {r : Registry} {inside inside' : List ClassId} {a b id target : ClassId}

theorem mono (h : PathWithin r inside a b) (hsub : ∀ c ∈ inside, c ∈ inside') :
    PathWithin r inside' a b := by
  induction h with
  | refl ha => exact .refl (hsub _ ha)
  | step ha hedge _ ih => exact .step (hsub _ ha) hedge ih

theorem start_mem (h : PathWithin r inside a b) : a ∈ inside := by
  cases h with
  | refl ha => exact ha
  | step ha _ _ => exact ha

/-- A path is inside the list without `id`, or it can be cut behind its last visit of `id`. -/
theorem avoid_or_restart (id : ClassId) (hnodup : inside.Nodup)
    (h : PathWithin r inside a target) :
    PathWithin r (inside.erase id) a target ∨ id = target ∨
      ∃ c ∈ r.supers id, PathWithin r (inside.erase id) c target := by
  induction h with
  | @refl a ha =>
      by_cases hid : a = id
      · exact .inr (.inl hid.symm)
      · exact .inl (.refl (hnodup.mem_erase_iff.mpr ⟨hid, ha⟩))
  | @step a c target ha hedge _ ih =>
      rcases ih with hrest | hother
      · by_cases hid : a = id
        · subst hid
          exact .inr (.inr ⟨c, hedge, hrest⟩)
        · exact .inl (.step (hnodup.mem_erase_iff.mpr ⟨hid, ha⟩) hedge hrest)
      · exact .inr hother

/-- With all classes in the list, paths are inheritance. -/
theorem iff_inherits (hclosed : r.SupersExist) (ha : r.HasClass a) :
    PathWithin r r.allClasses a b ↔ r.Inherits a b := by
  constructor
  · intro h
    clear ha
    induction h with
    | refl _ => exact .refl
    | step _ hedge _ ih => exact .head hedge ih
  · intro h
    induction h using Relation.ReflTransGen.head_induction_on with
    | refl => exact .refl ((mem_allClasses r _).mpr ha)
    | @head a c hedge _ ih =>
        exact .step ((mem_allClasses r _).mpr ha) hedge (ih (hclosed a ha c hedge))

end PathWithin

/-! ## The search -/

/-- The visited classes in front of the pending ones start no path. -/
theorem exists_pathWithin_iff_dropWhile {r : Registry} {unvisited pending : List ClassId}
    {target : ClassId} :
    (∃ p ∈ pending, PathWithin r unvisited p target) ↔
      ∃ p ∈ pending.dropWhile fun id => !unvisited.contains id,
        PathWithin r unvisited p target := by
  constructor
  · rintro ⟨p, hp, hpath⟩
    refine ⟨p, ?_, hpath⟩
    rw [← List.takeWhile_append_dropWhile (p := fun id => !unvisited.contains id)
      (l := pending)] at hp
    rcases List.mem_append.mp hp with hfront | hback
    · have hvisited := List.mem_takeWhile_imp hfront
      simp [hpath.start_mem] at hvisited
    · exact hback
  · rintro ⟨p, hp, hpath⟩
    exact ⟨p, (List.dropWhile_sublist _).subset hp, hpath⟩

/-- A visited class starts no path. -/
theorem exists_pathWithin_cons_of_not_mem {r : Registry} {unvisited rest : List ClassId}
    {id target : ClassId} (hid : id ∉ unvisited) :
    (∃ p ∈ id :: rest, PathWithin r unvisited p target) ↔
      ∃ p ∈ rest, PathWithin r unvisited p target := by
  rw [List.exists_mem_cons_iff, or_iff_right]
  exact fun hpath => hid hpath.start_mem

/-- Visiting `id` takes it out of the list and puts its superclasses in front of the pending
classes. -/
theorem exists_pathWithin_cons_iff {r : Registry} {unvisited rest : List ClassId}
    {id target : ClassId} (hnodup : unvisited.Nodup) (hid : id ∈ unvisited) :
    (∃ p ∈ id :: rest, PathWithin r unvisited p target) ↔
      id = target ∨ ∃ p ∈ (r.supers id).reverse ++ rest,
        PathWithin r (unvisited.erase id) p target := by
  constructor
  · rintro ⟨p, hp, hpath⟩
    rcases hpath.avoid_or_restart id hnodup with havoid | heq | ⟨c, hc, hrestart⟩
    -- A path that avoids `id` cannot start there; one that does not restarts behind it.
    · rcases List.mem_cons.mp hp with rfl | hrest
      · exact absurd havoid.start_mem (hnodup.not_mem_erase)
      · exact .inr ⟨p, List.mem_append_right _ hrest, havoid⟩
    · exact .inl heq
    · exact .inr ⟨c, List.mem_append_left _ (List.mem_reverse.mpr hc), hrestart⟩
  · rintro (rfl | ⟨p, hp, hpath⟩)
    · exact ⟨id, List.mem_cons_self, .refl hid⟩
    · have hwider := hpath.mono fun c hc => List.mem_of_mem_erase hc
      rcases List.mem_append.mp hp with hsuper | hrest
      · exact ⟨id, List.mem_cons_self, .step hid (List.mem_reverse.mp hsuper) hwider⟩
      · exact ⟨p, List.mem_cons_of_mem _ hrest, hwider⟩

/-- The search finds the target exactly when a path through unvisited classes leads to it from a
pending class.  The steps cannot run out, because each one visits a class. -/
theorem reaches_eq_true_iff (r : Registry) (target : ClassId) {steps : Nat}
    {unvisited pending : List ClassId} (hnodup : unvisited.Nodup)
    (hsteps : unvisited.length ≤ steps) :
    r.reaches target steps unvisited pending = true ↔
      ∃ p ∈ pending, PathWithin r unvisited p target := by
  induction steps generalizing unvisited pending with
  | zero =>
      have hempty : unvisited = [] := List.eq_nil_of_length_eq_zero (Nat.le_zero.mp hsteps)
      subst hempty
      simp only [reaches, Bool.false_eq_true, false_iff, not_exists, not_and]
      intro p _ hpath
      exact List.not_mem_nil hpath.start_mem
  | succ steps ih =>
      rw [exists_pathWithin_iff_dropWhile, reaches]
      cases hpending : pending.dropWhile fun id => !unvisited.contains id with
      | nil => simp
      | cons id rest =>
          have hid : id ∈ unvisited := by
            have hhead := List.head?_dropWhile_not (fun id => !unvisited.contains id) pending
            rw [hpending] at hhead
            simpa using hhead
          have hlength : (unvisited.erase id).length ≤ steps := by
            rw [List.length_erase_of_mem hid]
            omega
          rw [Bool.or_eq_true, beq_iff_eq, ih (hnodup.erase id) hlength]
          exact (exists_pathWithin_cons_iff hnodup hid).symm

/-- The search decides inheritance on every graph of existing classes. -/
theorem isSubclass_iff_inherits {r : Registry} (hclosed : r.SupersExist) {a b : ClassId}
    (ha : r.HasClass a) : r.isSubclass a b = true ↔ r.Inherits a b := by
  unfold isSubclass
  rw [reaches_eq_true_iff r b (nodup_allClasses r) (Nat.le_of_eq (length_allClasses r))]
  simp only [List.mem_singleton, exists_eq_left]
  exact PathWithin.iff_inherits hclosed ha

end Registry
end LispFront
