import LispFront.Proofs.Syntax.Unfolding
import Mathlib.Order.WellFounded
import Mathlib.Data.Fintype.Order

/-!
# Objects that contain themselves

A syntax object stands for a finite tree unless one of the lists that it is made of is reached again
from its own elements.  The one direction is by the height of the tree, which goes down from a list
to its elements.  The other is by induction over the lists that the object is made of: there are
finitely many of them, so that without a cycle the relation of a list to its elements is well
founded.
-/

namespace LispFront

theorem Datum.height_le_heights {d : Datum} {ds : List Datum} (hd : d ∈ ds) :
    d.height ≤ Datum.heights ds := by
  induction ds with
  | nil => cases hd
  | cons e ds ih =>
      rw [Datum.heights]
      cases hd with
      | head => exact le_max_left _ _
      | tail _ hlater => exact (ih hlater).trans (le_max_right _ _)

namespace Heap

variable {h : Heap} {k l : ListRef} {x : Syntax}

/-- The list `k` has the list `l` among its elements. -/
def HasElement (h : Heap) (k l : ListRef) : Prop := .list l ∈ h.elements k

/-- The syntax object is made of the list: it is this list, or one of its elements is made of it. -/
def IsMadeOf (h : Heap) (x : Syntax) (l : ListRef) : Prop :=
  ∃ k, x = .list k ∧ Relation.ReflTransGen h.HasElement k l

/-- Every list that the syntax object is made of exists, and is not reached from its elements. -/
def Acyclic (h : Heap) (x : Syntax) : Prop :=
  ∀ l, h.IsMadeOf x l → l.address < h.size ∧ ¬ Relation.TransGen h.HasElement l l

/-! ## Trees have no cycles -/

/-- The lists inside a list stand for lower trees. -/
theorem Unfolds.lower {d : Datum} (hk : h.Unfolds (.list k) d)
    (hpath : Relation.TransGen h.HasElement k l) :
    ∃ e, h.Unfolds (.list l) e ∧ e.height < d.height := by
  have hstep {k l : ListRef} {d : Datum} (hk : h.Unfolds (.list k) d) (hedge : h.HasElement k l) :
      ∃ e, h.Unfolds (.list l) e ∧ e.height < d.height := by
    obtain ⟨ds, rfl, -, hall⟩ := hk.eq_list
    obtain ⟨e, he, hl⟩ := hall.exists_of_mem hedge
    refine ⟨e, hl, ?_⟩
    rw [Datum.height]
    exact Nat.lt_succ_of_le (Datum.height_le_heights he)
  -- Along the path, the trees get lower with every list.
  induction hpath with
  | single hedge => exact hstep hk hedge
  | tail _ hedge ih =>
      obtain ⟨e, hl, hlt⟩ := ih
      obtain ⟨e', hl', hlt'⟩ := hstep hl hedge
      exact ⟨e', hl', hlt'.trans hlt⟩

theorem Unfolds.acyclic {d : Datum} (hx : h.Unfolds x d) : h.Acyclic x := by
  rintro l ⟨k, rfl, hpath⟩
  have hl : ∃ e, h.Unfolds (.list l) e := by
    rcases Relation.reflTransGen_iff_eq_or_transGen.mp hpath with rfl | hpath
    · exact ⟨d, hx⟩
    · obtain ⟨e, hl, -⟩ := hx.lower hpath
      exact ⟨e, hl⟩
  obtain ⟨e, hl⟩ := hl
  refine ⟨?_, fun hcycle => ?_⟩
  · obtain ⟨-, -, hplace, -⟩ := hl.eq_list
    exact hplace
  · obtain ⟨e', hl', hlt⟩ := hl.lower hcycle
    rw [hl'.unique hl] at hlt
    exact Nat.lt_irrefl _ hlt

/-! ## Without a cycle there is a tree -/

theorem exists_unfoldsAll_of_forall {xs : List Syntax} (hall : ∀ x ∈ xs, ∃ d, h.Unfolds x d) :
    ∃ ds, h.UnfoldsAll xs ds := by
  induction xs with
  | nil => exact ⟨[], rfl⟩
  | cons x xs ih =>
      obtain ⟨d, hx⟩ := hall x List.mem_cons_self
      obtain ⟨ds, hxs⟩ := ih fun y hy => hall y (List.mem_cons_of_mem _ hy)
      exact ⟨d :: ds, x, xs, rfl, hx, hxs⟩

/-- Only lists have elements, so that an object stands for a tree if every list that it may be
does. -/
theorem exists_unfolds_of_lists (hlists : ∀ l, x = .list l → ∃ d, h.Unfolds (.list l) d) :
    ∃ d, h.Unfolds x d := by
  cases x with
  | symbol s => exact ⟨.symbol s, rfl⟩
  | string text => exact ⟨.string text, rfl⟩
  | number n => exact ⟨.number n, rfl⟩
  | list l => exact hlists l rfl

/-- On the lists that an object without cycles is made of, what is reached from a list is less. -/
theorem Acyclic.wellFounded (hx : h.Acyclic x) :
    WellFounded fun a b : Fin h.size =>
      h.IsMadeOf x ⟨b⟩ ∧ Relation.TransGen h.HasElement ⟨b⟩ ⟨a⟩ := by
  have htrans : IsTrans (Fin h.size) fun a b =>
      h.IsMadeOf x ⟨b⟩ ∧ Relation.TransGen h.HasElement ⟨b⟩ ⟨a⟩ :=
    ⟨fun _ _ _ hab hbc => ⟨hbc.1, hbc.2.trans hab.2⟩⟩
  have hirrefl : Std.Irrefl fun a b : Fin h.size =>
      h.IsMadeOf x ⟨b⟩ ∧ Relation.TransGen h.HasElement ⟨b⟩ ⟨a⟩ :=
    ⟨fun a haa => (hx ⟨a⟩ haa.1).2 haa.2⟩
  exact Finite.wellFounded_of_trans_of_irrefl _

theorem Acyclic.exists_unfolds_list (hx : h.Acyclic x) (a : Fin h.size) (ha : h.IsMadeOf x ⟨a⟩) :
    ∃ d, h.Unfolds (.list ⟨a⟩) d := by
  induction a using hx.wellFounded.induction with
  | _ a ih =>
      -- The root is made of the elements too, and they are less than the list.
      have helements : ∀ y ∈ h.elements ⟨a⟩, ∃ d, h.Unfolds y d := by
        intro y hy
        refine exists_unfolds_of_lists ?_
        rintro l rfl
        obtain ⟨root, hroot, hpath⟩ := ha
        have hl : h.IsMadeOf x l := ⟨root, hroot, hpath.tail hy⟩
        exact ih ⟨l.address, (hx l hl).1⟩ ⟨⟨root, hroot, hpath⟩, .single hy⟩ hl
      obtain ⟨ds, hall⟩ := exists_unfoldsAll_of_forall helements
      exact ⟨.list ds, unfolds_list.mpr ⟨a.isLt, hall⟩⟩

/-- A syntax object stands for a finite tree exactly when it does not contain itself. -/
theorem exists_unfolds_iff_acyclic : (∃ d, h.Unfolds x d) ↔ h.Acyclic x := by
  constructor
  · rintro ⟨d, hx⟩
    exact hx.acyclic
  · intro hx
    refine exists_unfolds_of_lists ?_
    rintro root rfl
    have hroot : h.IsMadeOf (.list root) root := ⟨root, rfl, .refl⟩
    exact hx.exists_unfolds_list ⟨root.address, (hx root hroot).1⟩ hroot

end Heap
end LispFront
