import LispFront.Syntax.Heap
import Mathlib.Data.List.Induction

/-!
# Places inside a syntax object

A place inside a syntax object is a path of indices, one for every list on the way.  A heap can hold
a list at several places.  `Unshared` rules that out for all lists from an address on: every such
list is an element of one list only, at one index only, and was allocated after it.  Then different
paths lead to different lists (`Unshared.eq_path`).
-/

namespace LispFront
namespace Heap

variable {h : Heap} {k l l' : ListRef} {i i' : Nat} {x : Syntax}

/-! ## Elements of one list -/

theorem elements_eq_nil (hk : h.size ≤ k.address) : h.elements k = [] := by
  unfold Heap.elements
  rw [Array.getElem?_eq_none hk]
  rfl

/-- A new list without elements cannot be told from one that is not there. -/
theorem elements_alloc_nil (h : Heap) (k : ListRef) : (h.alloc []).2.elements k = h.elements k := by
  unfold alloc Heap.elements
  rw [Array.getElem?_push]
  split
  · next hk =>
      rw [hk, Array.getElem?_size]
      rfl
  · rfl

/-- The list `k` has the list `l` as its element at the index `i`. -/
def Holds (h : Heap) (k : ListRef) (i : Nat) (l : ListRef) : Prop :=
  (h.elements k)[i]? = some (.list l)

/-- What was added to a list is its last element. -/
theorem Holds.of_append (hholds : (h.append l' x).Holds k i l) :
    h.Holds k i l ∨ k = l' ∧ i = (h.elements l').length ∧ x = .list l := by
  unfold Holds at hholds ⊢
  by_cases hk : k = l'
  · subst hk
    by_cases hplace : k.address < h.size
    · rw [elements_append_self hplace] at hholds
      rcases Nat.lt_trichotomy i (h.elements k).length with hlt | rfl | hgt
      · rw [List.getElem?_append_left hlt] at hholds
        exact .inl hholds
      · rw [List.getElem?_concat_length] at hholds
        exact .inr ⟨rfl, rfl, Option.some.inj hholds⟩
      · rw [List.getElem?_eq_none (by simp; omega)] at hholds
        cases hholds
    · rw [elements_eq_nil (by rw [size_append]; omega)] at hholds
      cases hholds
  · rw [elements_append_of_ne hk] at hholds
    exact .inl hholds

/-! ## Lists that are not shared -/

/-- Lists from the address `lo` on hold only lists that come after them, and no list at two
indices. -/
structure Unshared (h : Heap) (lo : Nat) : Prop where
  later : ∀ {k : ListRef} {i : Nat} {l : ListRef}, lo ≤ k.address → h.Holds k i l →
    k.address < l.address ∧ l.address < h.size
  once : ∀ {k k' : ListRef} {i i' : Nat} {l : ListRef}, lo ≤ k.address → lo ≤ k'.address →
    h.Holds k i l → h.Holds k' i' l → k = k' ∧ i = i'

/-- Lists without elements share nothing. -/
theorem unshared_of_elements_eq_nil {lo : Nat}
    (hnone : ∀ k : ListRef, lo ≤ k.address → h.elements k = []) : h.Unshared lo := by
  have hfalse {k : ListRef} {i : Nat} {l : ListRef} (hk : lo ≤ k.address)
      (hholds : h.Holds k i l) : False := by
    unfold Holds at hholds
    rw [hnone k hk] at hholds
    cases hholds
  exact ⟨fun hk hholds => (hfalse hk hholds).elim, fun hk _ hholds _ => (hfalse hk hholds).elim⟩

/-- Nothing is shared by an element that is no list. -/
theorem Unshared.append {lo : Nat} (hun : h.Unshared lo) (l' : ListRef) (hx : x.isList = false) :
    (h.append l' x).Unshared lo := by
  have hold {k : ListRef} {i : Nat} {l : ListRef} (hholds : (h.append l' x).Holds k i l) :
      h.Holds k i l := by
    rcases hholds.of_append with hholds | ⟨-, -, rfl⟩
    · exact hholds
    · cases hx
  refine ⟨fun hk hholds => ?_, fun hk hk' hholds hholds' => hun.once hk hk' (hold hholds)
    (hold hholds')⟩
  rw [size_append]
  exact hun.later hk (hold hholds)

/-- A new list is an element of one list, to which it is added. -/
theorem Unshared.alloc {lo : Nat} (hun : h.Unshared lo) {l' : ListRef} (hl' : l'.address < h.size) :
    ((h.alloc []).2.append l' (.list ⟨h.size⟩)).Unshared lo := by
  have hcases {k : ListRef} {i : Nat} {l : ListRef}
      (hholds : ((h.alloc []).2.append l' (.list ⟨h.size⟩)).Holds k i l) :
      h.Holds k i l ∨ k = l' ∧ i = (h.elements l').length ∧ l = ⟨h.size⟩ := by
    rcases hholds.of_append with hholds | ⟨hk, hi, hl⟩
    · unfold Holds at hholds ⊢
      rw [elements_alloc_nil] at hholds
      exact .inl hholds
    · rw [elements_alloc_nil] at hi
      cases hl
      exact .inr ⟨hk, hi, rfl⟩
  -- No list holds the new one already.
  have hfresh {k : ListRef} {i : Nat} (hk : lo ≤ k.address) (hholds : h.Holds k i ⟨h.size⟩) :
      False :=
    Nat.lt_irrefl _ (hun.later hk hholds).2
  refine ⟨fun hk hholds => ?_, fun hk hk' hholds hholds' => ?_⟩
  · rw [size_append, size_alloc]
    rcases hcases hholds with hold | ⟨rfl, -, rfl⟩
    · have hplace := hun.later hk hold
      omega
    · exact ⟨hl', Nat.lt_succ_self _⟩
  · rcases hcases hholds with hold | ⟨rfl, rfl, rfl⟩
    · rcases hcases hholds' with hold' | ⟨-, -, rfl⟩
      · exact hun.once hk hk' hold hold'
      · exact (hfresh hk hold).elim
    · rcases hcases hholds' with hold' | ⟨rfl, rfl, -⟩
      · exact (hfresh hk' hold').elim
      · exact ⟨rfl, rfl⟩

/-! ## Paths -/

/-- The object at a place inside a syntax object. -/
def at? (h : Heap) : Syntax → List Nat → Option Syntax
  | x, [] => some x
  | .list l, i :: path => (h.elements l)[i]?.bind fun x => h.at? x path
  | _, _ :: _ => none

/-- The last index of a path belongs to the list that the path before it leads to. -/
theorem exists_holds_of_at? {x : Syntax} {path : List Nat}
    (hat : h.at? x (path ++ [i]) = some (.list l)) :
    ∃ k, h.at? x path = some (.list k) ∧ h.Holds k i l := by
  induction path generalizing x with
  | nil =>
      cases x with
      | list k =>
          obtain ⟨y, hy, hlist⟩ := Option.bind_eq_some_iff.mp hat
          cases hlist
          exact ⟨k, rfl, hy⟩
      | _ => cases hat
  | cons j path ih =>
      cases x with
      | list m =>
          obtain ⟨y, hy, hlist⟩ := Option.bind_eq_some_iff.mp hat
          obtain ⟨k, hk, hholds⟩ := ih hlist
          exact ⟨k, Option.bind_eq_some_iff.mpr ⟨y, hy, hk⟩, hholds⟩
      | _ => cases hat

variable {root : ListRef} {path path' : List Nat}

/-- Addresses grow along a path. -/
theorem Unshared.add_length_le (hun : h.Unshared root.address)
    (hat : h.at? (.list root) path = some (.list l)) : root.address + path.length ≤ l.address := by
  induction path using List.reverseRecOn generalizing l with
  | nil =>
      cases hat
      exact Nat.le_refl _
  | append_singleton path i ih =>
      obtain ⟨k, hk, hholds⟩ := exists_holds_of_at? hat
      have hle := ih hk
      have hlt := (hun.later (Nat.le_trans (Nat.le_add_right _ _) hle) hholds).1
      rw [List.length_append, List.length_singleton]
      omega

/-- A list stands at one place only. -/
theorem Unshared.eq_path (hun : h.Unshared root.address)
    (hat : h.at? (.list root) path = some (.list l))
    (hat' : h.at? (.list root) path' = some (.list l)) : path = path' := by
  induction path using List.reverseRecOn generalizing path' l with
  | nil =>
      cases hat
      have hle := hun.add_length_le hat'
      exact (List.length_eq_zero_iff.mp (by omega)).symm
  | append_singleton path i ih =>
      have hle := hun.add_length_le hat
      rw [List.length_append, List.length_singleton] at hle
      cases path' using List.reverseRecOn with
      | nil =>
          cases hat'
          omega
      | append_singleton path' i' =>
          obtain ⟨k, hk, hholds⟩ := exists_holds_of_at? hat
          obtain ⟨k', hk', hholds'⟩ := exists_holds_of_at? hat'
          have hplace := Nat.le_trans (Nat.le_add_right _ _) (hun.add_length_le hk)
          have hplace' := Nat.le_trans (Nat.le_add_right _ _) (hun.add_length_le hk')
          obtain ⟨rfl, rfl⟩ := hun.once hplace hplace' hholds hholds'
          rw [ih hk hk']

end Heap
end LispFront
