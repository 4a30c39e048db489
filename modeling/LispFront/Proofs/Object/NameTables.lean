import LispFront.Proofs.Object.History
import Mathlib.Data.List.Induction

/-!
# The tables of names

A registry keeps a table of the names of its classes and one of those of its generic functions.  In
both the latest entry of a name stands first.  `Registry.Indexed` says that each table lists exactly
the entries that there are, the latest first; every registration keeps it so.  Looking up a name
therefore finds the entry of that name with the greatest place, and finds none only if there is none
(`Reachable.findClass_eq_some_iff`, `Reachable.findGeneric_eq_some_iff`).
-/

namespace LispFront
namespace Registry

/-! ## A table with the latest entry first -/

section Table

variable {α : Type} {place : Nat → α} {names : List Symbol} {name : Symbol}

/-- The table of entries that have these names, in the order of their places: the latest first. -/
def latestFirst (place : Nat → α) (names : List Symbol) : List (Symbol × α) :=
  (names.zipIdx.map fun (name, i) => (name, place i)).reverse

/-- The last place at which a list holds a name. -/
def IsLastOf (names : List Symbol) (name : Symbol) (i : Nat) : Prop :=
  names[i]? = some name ∧ ∀ j : Nat, names[j]? = some name → j ≤ i

theorem latestFirst_concat (place : Nat → α) (names : List Symbol) (name : Symbol) :
    latestFirst place (names ++ [name]) =
      (name, place names.length) :: latestFirst place names := by
  simp [latestFirst, List.zipIdx_append]

theorem isLastOf_concat_self (names : List Symbol) (name : Symbol) :
    IsLastOf (names ++ [name]) name names.length := by
  refine ⟨by simp, fun j hj => ?_⟩
  have hlt := (List.getElem?_eq_some_iff.mp hj).1
  rw [List.length_append, List.length_singleton] at hlt
  exact Nat.le_of_lt_succ hlt

theorem isLastOf_concat_of_ne {last : Symbol} (h : name ≠ last) (i : Nat) :
    IsLastOf (names ++ [last]) name i ↔ IsLastOf names name i := by
  -- The place behind the old names holds another name.
  have hsame (j : Nat) : (names ++ [last])[j]? = some name ↔ names[j]? = some name := by
    rcases Nat.lt_trichotomy j names.length with hlt | rfl | hgt
    · rw [List.getElem?_append_left hlt]
    · simpa using Ne.symm h
    · rw [List.getElem?_eq_none (Nat.le_of_lt hgt), List.getElem?_eq_none (by simp; omega)]
  unfold IsLastOf
  simp only [hsame]

theorem IsLastOf.unique {i j : Nat} (hi : IsLastOf names name i) (hj : IsLastOf names name j) :
    i = j :=
  Nat.le_antisymm (hj.2 i hi.1) (hi.2 j hj.1)

/-- Looking up a name in the table finds the last entry of that name. -/
theorem lookup_latestFirst_eq_some_iff {a : α} :
    (latestFirst place names).lookup name = some a ↔ ∃ i, IsLastOf names name i ∧ place i = a := by
  induction names using List.reverseRecOn with
  | nil => simp [latestFirst, IsLastOf]
  | append_singleton names last ih =>
      rw [latestFirst_concat, List.lookup_cons]
      by_cases h : name = last
      · subst h
        have hlast := isLastOf_concat_self names name
        simp only [BEq.rfl, Option.some.injEq]
        constructor
        · intro hplace
          exact ⟨names.length, hlast, hplace⟩
        · rintro ⟨i, hi, hplace⟩
          rw [hi.unique hlast] at hplace
          exact hplace
      · have hne : (name == last) = false := by simpa using h
        simp only [hne, ih, isLastOf_concat_of_ne h]

theorem lookup_latestFirst_eq_none_iff :
    (latestFirst place names).lookup name = none ↔ name ∉ names := by
  induction names using List.reverseRecOn with
  | nil => simp [latestFirst]
  | append_singleton names last ih =>
      rw [latestFirst_concat, List.lookup_cons, List.mem_append, List.mem_singleton]
      by_cases h : name = last
      · simp [h]
      · have hne : (name == last) = false := by simpa using h
        simp only [hne, ih, h, or_false]

end Table

/-! ## The tables of a registry -/

/-- Both tables of names list the entries that there are, the latest first. -/
structure Indexed (r : Registry) : Prop where
  classNames : r.classNames = latestFirst ClassId.mk (r.classes.toList.map (·.name))
  genericNames : r.genericNames = latestFirst GenericId.mk (r.generics.toList.map (·.name))

theorem indexed_empty : Indexed empty := ⟨rfl, rfl⟩

/-- A change of one entry that keeps its name keeps all names. -/
theorem map_modify_of_keeps {α β : Type} {f : α → α} {g : α → β} (h : ∀ a, g (f a) = g a)
    (as : Array α) (i : Nat) : (as.modify i f).toList.map g = as.toList.map g := by
  refine List.ext_getElem? fun j => ?_
  by_cases hij : i = j
  · subst hij
    cases hentry : as[i]? <;> simp [hentry, h]
  · simp [hij]

/-- Every elementary registration keeps the tables of names in step. -/
theorem Step.indexed {r r' : Registry} (h : Step r r') (hr : r.Indexed) : r'.Indexed := by
  cases h with
  | makeClass name =>
      refine ⟨?_, hr.genericNames⟩
      simp [Registry.makeClass, latestFirst_concat, hr.classNames]
  | @addSuperclass id super hid hsuper =>
      refine ⟨?_, hr.genericNames⟩
      have hnames := map_modify_of_keeps (g := Class.name)
        (f := fun c => { c with supers := c.supers ++ [super] }) (fun _ => rfl) r.classes id.index
      exact hr.classNames.trans (congrArg (latestFirst ClassId.mk) hnames.symm)
  | makeGeneric name =>
      refine ⟨hr.classNames, ?_⟩
      simp [Registry.makeGeneric, latestFirst_concat, hr.genericNames]
  | @addMethod id hid closure specializers hspecializers =>
      refine ⟨hr.classNames, ?_⟩
      have hnames := map_modify_of_keeps (g := GenericFunction.name)
        (f := fun g => { g with methods := g.methods ++ [⟨closure, specializers⟩] })
        (fun _ => rfl) r.generics id.index
      exact hr.genericNames.trans (congrArg (latestFirst GenericId.mk) hnames.symm)

theorem Grows.indexed {r r' : Registry} (h : Grows r r') (hr : r.Indexed) : r'.Indexed := by
  induction h with
  | refl => exact hr
  | tail _ hstep ih => exact hstep.indexed ih

/-- The tables of names do not look at the core. -/
theorem Indexed.withCore {r : Registry} (h : r.Indexed) (core : Core) :
    (r.withCore core).Indexed :=
  ⟨h.classNames, h.genericNames⟩

/-- In every reachable registry the tables of names are in step with the entries. -/
theorem Reachable.indexed {r : Registry} (h : Reachable r) : r.Indexed := by
  induction h with
  | empty => exact indexed_empty
  | @step r _ op hop ih =>
      by_cases hboot : op = .bootstrap
      · subst hboot
        cases hcore : r.core with
        | none =>
            rw [apply_bootstrap_of_none hcore]
            exact ((grows_declared r).indexed ih).withCore _
        | some core =>
            rw [apply_bootstrap_of_core hcore]
            exact ih
      · exact (Registration.grows hop hboot).indexed ih

/-! ## The latest entry of a name -/

/-- Among the classes of the name, this one has the greatest place. -/
structure IsLatestClass (r : Registry) (name : Symbol) (id : ClassId) : Prop where
  place : r.HasClass id
  named : (r.getClass id).name = name
  latest : ∀ other, r.HasClass other → (r.getClass other).name = name → other.index ≤ id.index

/-- Among the generic functions of the name, this one has the greatest place. -/
structure IsLatestGeneric (r : Registry) (name : Symbol) (id : GenericId) : Prop where
  place : r.HasGeneric id
  named : (r.getGeneric id).name = name
  latest : ∀ other, r.HasGeneric other → (r.getGeneric other).name = name → other.index ≤ id.index

variable {r : Registry} {name : Symbol}

theorem getElem?_classNames_eq_some_iff (id : ClassId) :
    (r.classes.toList.map (·.name))[id.index]? = some name ↔
      r.HasClass id ∧ (r.getClass id).name = name := by
  unfold HasClass getClass
  rw [List.getElem?_map, Array.getElem?_toList]
  by_cases h : id.index < r.classes.size
  · simp [h]
  · simp [h]

theorem getElem?_genericNames_eq_some_iff (id : GenericId) :
    (r.generics.toList.map (·.name))[id.index]? = some name ↔
      r.HasGeneric id ∧ (r.getGeneric id).name = name := by
  unfold HasGeneric getGeneric
  rw [List.getElem?_map, Array.getElem?_toList]
  by_cases h : id.index < r.generics.size
  · simp [h]
  · simp [h]

theorem isLastOf_classNames_iff {id : ClassId} :
    IsLastOf (r.classes.toList.map (·.name)) name id.index ↔ r.IsLatestClass name id := by
  unfold IsLastOf
  rw [getElem?_classNames_eq_some_iff]
  constructor
  · rintro ⟨⟨hplace, hnamed⟩, hlatest⟩
    refine ⟨hplace, hnamed, fun other hother hname => ?_⟩
    exact hlatest other.index ((getElem?_classNames_eq_some_iff _).mpr ⟨hother, hname⟩)
  · rintro ⟨hplace, hnamed, hlatest⟩
    refine ⟨⟨hplace, hnamed⟩, fun j hj => ?_⟩
    obtain ⟨hother, hname⟩ := (getElem?_classNames_eq_some_iff ⟨j⟩).mp hj
    exact hlatest ⟨j⟩ hother hname

theorem isLastOf_genericNames_iff {id : GenericId} :
    IsLastOf (r.generics.toList.map (·.name)) name id.index ↔ r.IsLatestGeneric name id := by
  unfold IsLastOf
  rw [getElem?_genericNames_eq_some_iff]
  constructor
  · rintro ⟨⟨hplace, hnamed⟩, hlatest⟩
    refine ⟨hplace, hnamed, fun other hother hname => ?_⟩
    exact hlatest other.index ((getElem?_genericNames_eq_some_iff _).mpr ⟨hother, hname⟩)
  · rintro ⟨hplace, hnamed, hlatest⟩
    refine ⟨⟨hplace, hnamed⟩, fun j hj => ?_⟩
    obtain ⟨hother, hname⟩ := (getElem?_genericNames_eq_some_iff ⟨j⟩).mp hj
    exact hlatest ⟨j⟩ hother hname

/-- Looking up the name of a class finds the latest class of that name. -/
theorem Reachable.findClass_eq_some_iff (h : Reachable r) {id : ClassId} :
    r.findClass name = some id ↔ r.IsLatestClass name id := by
  unfold findClass
  rw [h.indexed.classNames, lookup_latestFirst_eq_some_iff]
  constructor
  · rintro ⟨i, hi, rfl⟩
    exact isLastOf_classNames_iff.mp hi
  · intro hid
    exact ⟨id.index, isLastOf_classNames_iff.mpr hid, rfl⟩

/-- Looking up a name finds no class only if none has the name. -/
theorem Reachable.findClass_eq_none_iff (h : Reachable r) :
    r.findClass name = none ↔ ∀ id, r.HasClass id → (r.getClass id).name ≠ name := by
  unfold findClass
  rw [h.indexed.classNames, lookup_latestFirst_eq_none_iff, List.mem_iff_getElem?, not_exists]
  constructor
  · intro hnone id hid hname
    exact hnone id.index ((getElem?_classNames_eq_some_iff _).mpr ⟨hid, hname⟩)
  · intro hnone i hi
    obtain ⟨hid, hname⟩ := (getElem?_classNames_eq_some_iff ⟨i⟩).mp hi
    exact hnone ⟨i⟩ hid hname

/-- Looking up the name of a generic function finds the latest one of that name. -/
theorem Reachable.findGeneric_eq_some_iff (h : Reachable r) {id : GenericId} :
    r.findGeneric name = some id ↔ r.IsLatestGeneric name id := by
  unfold findGeneric
  rw [h.indexed.genericNames, lookup_latestFirst_eq_some_iff]
  constructor
  · rintro ⟨i, hi, rfl⟩
    exact isLastOf_genericNames_iff.mp hi
  · intro hid
    exact ⟨id.index, isLastOf_genericNames_iff.mpr hid, rfl⟩

/-- Looking up a name finds no generic function only if none has the name. -/
theorem Reachable.findGeneric_eq_none_iff (h : Reachable r) :
    r.findGeneric name = none ↔ ∀ id, r.HasGeneric id → (r.getGeneric id).name ≠ name := by
  unfold findGeneric
  rw [h.indexed.genericNames, lookup_latestFirst_eq_none_iff, List.mem_iff_getElem?, not_exists]
  constructor
  · intro hnone id hid hname
    exact hnone id.index ((getElem?_genericNames_eq_some_iff _).mpr ⟨hid, hname⟩)
  · intro hnone i hi
    obtain ⟨hid, hname⟩ := (getElem?_genericNames_eq_some_iff ⟨i⟩).mp hi
    exact hnone ⟨i⟩ hid hname

end Registry
end LispFront
