import LispFront.Proofs.Ast.Sameness
import LispFront.Proofs.Normalize.Entries
import LispFront.Proofs.Normalize.Invariants

/-!
# Units

The elements of a call, as long as no marker stands alone at the end, are units: a positional
element, or a marker with the element after it.  Units are the entries that dissecting cuts
(`ArgumentUnit.entriesFrom_elementsOf`), so that moving units is moving entries.  The arguments
that entries make up depend, up to the order of keywords, only on the values under each keyword
(`Ast.sameArguments_ofEntries`); these stay when units are `Moved`.
-/

namespace LispFront

open Normalize

/-! ## Units -/

/-- An argument as it is written: an element that is no marker, or a marker with the element after
it, whatever that is. -/
inductive ArgumentUnit where
  | positional (d : Datum) (hplain : d.keyword? = none)
  | keyword (marker : Datum) (key : Symbol) (hmarker : marker.keyword? = some key) (value : Datum)

namespace ArgumentUnit

/-- The keyword, without its colon. -/
def key? : ArgumentUnit → Option Symbol
  | positional _ _ => none
  | keyword _ key _ _ => some key

/-- The element that is normalized. -/
def value : ArgumentUnit → Datum
  | positional d _ => d
  | keyword _ _ _ value => value

/-- The elements of a unit, as they stand in a call. -/
def elements : ArgumentUnit → List Datum
  | positional d _ => [d]
  | keyword marker _ _ value => [marker, value]

/-- The elements of units one after the other. -/
def elementsOf (us : List ArgumentUnit) : List Datum := us.flatMap elements

/-- The entry that dissecting makes of a unit. -/
def entry (u : ArgumentUnit) : ArgumentEntry Datum := ⟨u.key?, u.value⟩

theorem elementsOf_cons (u : ArgumentUnit) (us : List ArgumentUnit) :
    elementsOf (u :: us) = u.elements ++ elementsOf us := rfl

/-- Dissecting cuts the elements of a unit into its entry. -/
theorem entriesFrom_elements (u : ArgumentUnit) (ds : List Datum) :
    entriesFrom Datum.keyword? none (u.elements ++ ds) =
      u.entry :: entriesFrom Datum.keyword? none ds := by
  cases u with
  | positional d hplain =>
      have hvalue : nextKey Datum.keyword? none d = none := hplain
      exact entriesFrom_cons_of_value hvalue ds
  | keyword marker key hmarker value =>
      have hwaits : nextKey Datum.keyword? none marker = some key := hmarker
      rw [elements, List.cons_append, entriesFrom_cons_of_key hwaits]
      exact entriesFrom_cons_of_value rfl ds

theorem keyAfter_elements (u : ArgumentUnit) (ds : List Datum) :
    keyAfter Datum.keyword? none (u.elements ++ ds) = keyAfter Datum.keyword? none ds := by
  cases u with
  | positional d hplain =>
      have hvalue : nextKey Datum.keyword? none d = none := hplain
      rw [elements, List.singleton_append, keyAfter_cons, hvalue]
  | keyword marker key hmarker value =>
      have hwaits : nextKey Datum.keyword? none marker = some key := hmarker
      rw [elements, List.cons_append, keyAfter_cons, hwaits]
      rfl

/-- Dissecting cuts units into their entries. -/
theorem entriesFrom_elementsOf (us : List ArgumentUnit) :
    entriesFrom Datum.keyword? none (elementsOf us) = us.map entry := by
  induction us with
  | nil => rfl
  | cons u us ih => rw [elementsOf_cons, entriesFrom_elements, ih, List.map_cons]

/-- After units no keyword waits for its value. -/
theorem keyAfter_elementsOf (us : List ArgumentUnit) :
    keyAfter Datum.keyword? none (elementsOf us) = none := by
  induction us with
  | nil => rfl
  | cons u us ih => rw [elementsOf_cons, keyAfter_elements, ih]

theorem height_value_le {us : List ArgumentUnit} {height : Nat}
    (h : Datum.heights (elementsOf us) ≤ height) : ∀ u ∈ us, u.value.height ≤ height := by
  induction us with
  | nil => exact fun u hu => absurd hu List.not_mem_nil
  | cons first us ih =>
      rw [elementsOf_cons] at h
      have hboth : first.value.height ≤ height ∧ Datum.heights (elementsOf us) ≤ height := by
        cases first with
        | positional d hplain => exact Datum.heights_cons_le.mp h
        | keyword marker key hmarker value =>
            exact Datum.heights_cons_le.mp (Datum.heights_cons_le.mp h).2
      intro u hu
      rcases List.mem_cons.mp hu with rfl | hrest
      · exact hboth.1
      · exact ih hboth.2 u hrest

end ArgumentUnit

/-- The units are moved, and for each keyword, and for no keyword, they keep their order. -/
structure Moved (us vs : List ArgumentUnit) : Prop where
  perm : us.Perm vs
  order : ∀ key : Option Symbol, us.filter (·.key? = key) = vs.filter (·.key? = key)

namespace Moved

variable {u v : ArgumentUnit} {us vs ws : List ArgumentUnit}

theorem trans (hfirst : Moved us vs) (hsecond : Moved vs ws) : Moved us ws where
  perm := hfirst.perm.trans hsecond.perm
  order key := (hfirst.order key).trans (hsecond.order key)

/-- Neighbours of different keywords may change places. -/
theorem swap (h : u.key? ≠ v.key?) (before after : List ArgumentUnit) :
    Moved (before ++ u :: v :: after) (before ++ v :: u :: after) where
  perm := (List.Perm.swap v u after).append_left before
  order key := by
    rw [List.filter_append, List.filter_append]
    congr 1
    by_cases hu : u.key? = key
    · have hv : ¬ v.key? = key := fun hv => h (hu.trans hv.symm)
      simp [hu, hv]
    · simp [List.filter_cons, hu]

end Moved

/-- The values of two units are related; the units are otherwise alike. -/
inductive ArgumentUnit.Lifted (R : Datum → Datum → Prop) : ArgumentUnit → ArgumentUnit → Prop
  | positional {d d' : Datum} {hplain : d.keyword? = none} {hplain' : d'.keyword? = none}
      (h : R d d') : Lifted R (.positional d hplain) (.positional d' hplain')
  | keyword {marker : Datum} {key : Symbol} {hmarker : marker.keyword? = some key}
      {value value' : Datum} (h : R value value') :
      Lifted R (.keyword marker key hmarker value) (.keyword marker key hmarker value')

/-! ## Normal forms of parts -/

namespace Datum

/-- The syntax tree that a tree normalizes to; some tree if it does not. -/
def normalForm (d : Datum) : Ast :=
  match d.normalize with
  | .ok a => a
  | .error _ => .seq []

theorem normalForm_eq {d : Datum} {a : Ast} (h : d.normalize = .ok a) : d.normalForm = a := by
  rw [normalForm, h]

end Datum

/-- Computations in order give a list when each gives its element. -/
theorem except_mapM_eq_ok_iff {ε α β : Type} {f : α → Except ε β} {g : α → β}
    (hg : ∀ x b, f x = .ok b → g x = b) {xs : List α} {ys : List β} :
    xs.mapM f = .ok ys ↔ (∀ x ∈ xs, f x = .ok (g x)) ∧ ys = xs.map g := by
  induction xs generalizing ys with
  | nil =>
      rw [List.mapM_nil, except_pure_eq_ok]
      simp [eq_comm]
  | cons x xs ih =>
      rw [List.mapM_cons, List.forall_mem_cons, List.map_cons]
      constructor
      · intro h
        obtain ⟨b, hb, h⟩ := except_bind_eq_ok.mp h
        obtain ⟨bs, hbs, h⟩ := except_bind_eq_ok.mp h
        obtain ⟨hall, rfl⟩ := ih.mp hbs
        rw [← except_pure_eq_ok.mp h, hg x b hb]
        exact ⟨⟨hb, hall⟩, rfl⟩
      · rintro ⟨⟨hx, hall⟩, rfl⟩
        refine except_bind_eq_ok.mpr ⟨g x, hx, except_bind_eq_ok.mpr ⟨xs.map g, ?_, rfl⟩⟩
        exact ih.mpr ⟨hall, rfl⟩

/-- The entry of a unit with its value normalized. -/
def ArgumentUnit.normalEntry (u : ArgumentUnit) : ArgumentEntry Ast := u.entry.map Datum.normalForm

theorem ArgumentEntry.mapM_eq_ok_iff {e : ArgumentEntry Datum} {b : ArgumentEntry Ast} :
    e.mapM Datum.normalize = .ok b ↔ e.value.normalize = .ok b.value ∧ e.key = b.key := by
  obtain ⟨key, value⟩ := b
  unfold ArgumentEntry.mapM
  simp only [except_bind_eq_ok, except_pure_eq_ok, ArgumentEntry.mk.injEq]
  constructor
  · rintro ⟨a, ha, hkey, rfl⟩
    exact ⟨ha, hkey⟩
  · rintro ⟨ha, hkey⟩
    exact ⟨value, ha, hkey, rfl⟩

theorem ArgumentEntry.map_normalForm_eq {e : ArgumentEntry Datum} {b : ArgumentEntry Ast}
    (h : e.mapM Datum.normalize = .ok b) : e.map Datum.normalForm = b := by
  obtain ⟨hvalue, hkey⟩ := mapM_eq_ok_iff.mp h
  obtain ⟨key, value⟩ := b
  rw [map, Datum.normalForm_eq hvalue, hkey]

/-- Units are arguments when the value of each normalizes. -/
theorem dissectArguments_elementsOf_iff {us : List ArgumentUnit} {args : Arguments Ast} :
    Datum.dissectArguments .empty (ArgumentUnit.elementsOf us) = .ok args ↔
      (∀ u ∈ us, u.value.normalize = .ok u.value.normalForm) ∧
        args = .ofEntries (us.map ArgumentUnit.normalEntry) := by
  rw [dissectArguments_eq, dissectEntries, ArgumentUnit.entriesFrom_elementsOf,
    ArgumentUnit.keyAfter_elementsOf, except_bind_eq_ok]
  have hentries (e : ArgumentEntry Datum) (b : ArgumentEntry Ast)
      (h : e.mapM Datum.normalize = .ok b) : e.map Datum.normalForm = b :=
    ArgumentEntry.map_normalForm_eq h
  simp only [except_mapM_eq_ok_iff hentries, ArgumentEntry.mapM_eq_ok_iff, List.map_map]
  constructor
  · rintro ⟨es, ⟨hall, rfl⟩, hsettle⟩
    exact ⟨fun u hu => (hall u.entry (List.mem_map_of_mem hu)).1, (Except.ok.inj hsettle).symm⟩
  · rintro ⟨hall, rfl⟩
    refine ⟨_, ⟨fun e he => ?_, rfl⟩, rfl⟩
    obtain ⟨u, hu, rfl⟩ := List.mem_map.mp he
    exact ⟨hall u hu, rfl⟩

theorem valuesOf_normalEntry (key : Option Symbol) (us : List ArgumentUnit) :
    ArgumentEntry.valuesOf key (us.map ArgumentUnit.normalEntry) =
      (us.filter (·.key? = key)).map fun u => u.value.normalForm := by
  unfold ArgumentEntry.valuesOf
  rw [List.filter_map, List.map_map]
  rfl

/-! ## Arguments of the same entries -/

theorem Arguments.mem_keys_ofEntries_iff {α : Type} {entries : List (ArgumentEntry α)}
    {key : Symbol} :
    key ∈ (ofEntries entries).keys ↔ ArgumentEntry.valuesOf (some key) entries ≠ [] := by
  rw [keys_ofEntries, List.mem_eraseDups, List.mem_filterMap]
  simp [ArgumentEntry.valuesOf]

namespace Ast

/-- Entries with the same values under each keyword, in order, make up the same arguments. -/
theorem sameArguments_ofEntries {es fs : List (ArgumentEntry Ast)}
    (h : ∀ key, List.Forall₂ Same (ArgumentEntry.valuesOf key es)
      (ArgumentEntry.valuesOf key fs)) :
    SameArguments (.ofEntries es) (.ofEntries fs) where
  positional := by
    rw [Arguments.positional_ofEntries, Arguments.positional_ofEntries]
    exact h none
  count := by
    have hkeys : (Arguments.ofEntries es).keys.Perm (Arguments.ofEntries fs).keys := by
      refine (List.perm_ext_iff_of_nodup (Arguments.nodup_keys_ofEntries es)
        (Arguments.nodup_keys_ofEntries fs)).mpr fun key => ?_
      rw [Arguments.mem_keys_ofEntries_iff, Arguments.mem_keys_ofEntries_iff,
        ← List.length_pos_iff, ← List.length_pos_iff, (h (some key)).length_eq]
    simpa [Arguments.keys] using hkeys.length_eq
  keywords := by
    intro entry hentry
    have hlookup := Arguments.lookup_of_mem (Arguments.nodup_keys_ofEntries es) hentry
    have hlast := forall₂_head? (List.rel_reverse (h (some entry.1)))
    rw [List.head?_reverse, List.head?_reverse, ← Arguments.lookup_ofEntries,
      ← Arguments.lookup_ofEntries, hlookup] at hlast
    cases hfound : (Arguments.ofEntries fs).keywords.lookup entry.1 with
    | none =>
        rw [hfound] at hlast
        cases hlast
    | some b =>
        rw [hfound] at hlast
        cases hlast with
        | some hsame => exact ⟨b, rfl, hsame⟩

end Ast

end LispFront
