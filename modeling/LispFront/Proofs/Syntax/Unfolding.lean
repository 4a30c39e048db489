import LispFront.Syntax.Heap
import Mathlib.Data.Fintype.Card

/-!
# Unfolding

`Heap.Unfolds h x d` says that the syntax object `x` stands for the finite tree `d` in the heap `h`.
Sublists may be shared; an object that contains itself stands for no finite tree.  An object
stands for at most one tree (`Unfolds.unique`), and that tree is what `Heap.tree?` finds
(`Unfolds.tree?_eq`): on a path from the object down, every list stands for a tree of another
height, so there are no more lists on it than cells in the heap.
-/

namespace LispFront

namespace Datum

mutual

/-- How deep the lists of a tree are nested. -/
def height : Datum → Nat
  | .list ds => heights ds + 1
  | _ => 0

/-- The greatest height among trees. -/
def heights : List Datum → Nat
  | [] => 0
  | d :: ds => max d.height (heights ds)

end

theorem heights_cons_le {d : Datum} {ds : List Datum} {k : Nat} :
    heights (d :: ds) ≤ k ↔ d.height ≤ k ∧ heights ds ≤ k := by
  rw [heights]
  exact max_le_iff

end Datum

namespace Heap

mutual

/-- In the heap the syntax object stands for the finite tree. -/
def Unfolds (h : Heap) (x : Syntax) : Datum → Prop
  | .symbol s => x = .symbol s
  | .string text => x = .string text
  | .number n => x = .number n
  | .list ds => ∃ l, x = .list l ∧ l.address < h.size ∧ UnfoldsAll h (h.elements l) ds

/-- In the heap the syntax objects stand for the finite trees, one for one. -/
def UnfoldsAll (h : Heap) (xs : List Syntax) : List Datum → Prop
  | [] => xs = []
  | d :: ds => ∃ x rest, xs = x :: rest ∧ Unfolds h x d ∧ UnfoldsAll h rest ds

end

variable {h : Heap}

/-! ## Unfolding lists -/

theorem unfolds_list {l : ListRef} {ds : List Datum} :
    h.Unfolds (.list l) (.list ds) ↔ l.address < h.size ∧ h.UnfoldsAll (h.elements l) ds := by
  rw [Unfolds]
  constructor
  · rintro ⟨l', hl, hplace, hall⟩
    obtain rfl : l = l' := by simpa using hl
    exact ⟨hplace, hall⟩
  · rintro ⟨hplace, hall⟩
    exact ⟨l, rfl, hplace, hall⟩

@[simp] theorem unfoldsAll_nil_left {ds : List Datum} : h.UnfoldsAll [] ds ↔ ds = [] := by
  cases ds with
  | nil => simp [UnfoldsAll]
  | cons d ds => simp [UnfoldsAll]

@[simp] theorem unfoldsAll_nil_right {xs : List Syntax} : h.UnfoldsAll xs [] ↔ xs = [] := by
  rw [UnfoldsAll]

@[simp] theorem unfoldsAll_cons {x : Syntax} {xs : List Syntax} {d : Datum} {ds : List Datum} :
    h.UnfoldsAll (x :: xs) (d :: ds) ↔ h.Unfolds x d ∧ h.UnfoldsAll xs ds := by
  rw [UnfoldsAll]
  constructor
  · rintro ⟨x', rest, heq, hx, hrest⟩
    obtain ⟨rfl, rfl⟩ := List.cons.inj heq
    exact ⟨hx, hrest⟩
  · rintro ⟨hx, hrest⟩
    exact ⟨x, xs, rfl, hx, hrest⟩

theorem unfoldsAll_cons_left {x : Syntax} {xs : List Syntax} {ds : List Datum} :
    h.UnfoldsAll (x :: xs) ds ↔
      ∃ d rest, ds = d :: rest ∧ h.Unfolds x d ∧ h.UnfoldsAll xs rest := by
  cases ds with
  | nil => simp
  | cons d ds => simp

theorem UnfoldsAll.exists_of_mem {xs : List Syntax} {ds : List Datum}
    (hall : h.UnfoldsAll xs ds) {x : Syntax} (hx : x ∈ xs) : ∃ d ∈ ds, h.Unfolds x d := by
  induction xs generalizing ds with
  | nil => cases hx
  | cons y xs ih =>
      obtain ⟨d, rest, rfl, hy, hrest⟩ := unfoldsAll_cons_left.mp hall
      cases hx with
      | head => exact ⟨d, List.mem_cons_self, hy⟩
      | tail _ hlater =>
          obtain ⟨e, he, hxe⟩ := ih hrest hlater
          exact ⟨e, List.mem_cons_of_mem _ he, hxe⟩

theorem UnfoldsAll.length_eq {xs : List Syntax} {ds : List Datum} (hall : h.UnfoldsAll xs ds) :
    xs.length = ds.length := by
  induction ds generalizing xs with
  | nil =>
      rw [unfoldsAll_nil_right] at hall
      rw [hall]
      rfl
  | cons d ds ih =>
      obtain ⟨x, rest, rfl, -, hrest⟩ := hall
      rw [List.length_cons, List.length_cons, ih hrest]

theorem UnfoldsAll.drop {xs : List Syntax} {ds : List Datum} (hall : h.UnfoldsAll xs ds)
    (n : Nat) : h.UnfoldsAll (xs.drop n) (ds.drop n) := by
  induction n generalizing xs ds with
  | zero => exact hall
  | succ n ih =>
      cases ds with
      | nil =>
          rw [unfoldsAll_nil_right] at hall
          simp [hall]
      | cons d ds =>
          obtain ⟨x, rest, rfl, -, hrest⟩ := hall
          exact ih hrest

/-- A list stands for a tree only if it stands for a tree of its elements. -/
theorem Unfolds.eq_list {l : ListRef} {d : Datum} (hx : h.Unfolds (.list l) d) :
    ∃ ds, d = .list ds ∧ l.address < h.size ∧ h.UnfoldsAll (h.elements l) ds := by
  cases d with
  | list ds => exact ⟨ds, rfl, unfolds_list.mp hx⟩
  | _ => simp [Unfolds] at hx

/-! ## One tree at most -/

mutual

/-- A syntax object stands for at most one tree. -/
theorem Unfolds.unique {x : Syntax} : {d d' : Datum} → h.Unfolds x d → h.Unfolds x d' → d = d'
  | .symbol s, d', hd, hd' => by
      cases d' <;> simp_all [Unfolds]
  | .string text, d', hd, hd' => by
      cases d' <;> simp_all [Unfolds]
  | .number n, d', hd, hd' => by
      cases d' <;> simp_all [Unfolds]
  | .list ds, d', hd, hd' => by
      obtain ⟨l, rfl, -, hall⟩ := hd
      obtain ⟨ds', rfl, -, hall'⟩ := hd'.eq_list
      rw [UnfoldsAll.unique hall hall']

theorem UnfoldsAll.unique {xs : List Syntax} :
    {ds ds' : List Datum} → h.UnfoldsAll xs ds → h.UnfoldsAll xs ds' → ds = ds'
  | [], ds', hd, hd' => by
      rw [unfoldsAll_nil_right] at hd
      subst hd
      exact (unfoldsAll_nil_left.mp hd').symm
  | d :: ds, ds', hd, hd' => by
      obtain ⟨x, rest, rfl, hx, hrest⟩ := hd
      obtain ⟨d', rest', rfl, hx', hrest'⟩ := unfoldsAll_cons_left.mp hd'
      rw [Unfolds.unique hx hx', UnfoldsAll.unique hrest hrest']

end

/-! ## The tree that is found -/

mutual

/-- With enough depth the tree of a syntax object is found. -/
theorem Unfolds.treeWithin_eq {x : Syntax} {depth : Nat} :
    {d : Datum} → h.Unfolds x d → d.height ≤ depth → h.treeWithin depth x = some d
  | .symbol s, hd, _ => by
      obtain rfl : x = .symbol s := hd
      rw [treeWithin]
  | .string text, hd, _ => by
      obtain rfl : x = .string text := hd
      rw [treeWithin]
  | .number n, hd, _ => by
      obtain rfl : x = .number n := hd
      rw [treeWithin]
  | .list ds, hd, hdepth => by
      obtain ⟨l, rfl, -, hall⟩ := hd
      rw [Datum.height] at hdepth
      cases depth with
      | zero => exact absurd hdepth (Nat.not_succ_le_zero _)
      | succ depth =>
          rw [treeWithin, UnfoldsAll.mapM_treeWithin_eq hall (Nat.le_of_succ_le_succ hdepth)]
          rfl

theorem UnfoldsAll.mapM_treeWithin_eq {xs : List Syntax} {depth : Nat} :
    {ds : List Datum} → h.UnfoldsAll xs ds → Datum.heights ds ≤ depth →
      xs.mapM (h.treeWithin depth) = some ds
  | [], hd, _ => by
      rw [unfoldsAll_nil_right] at hd
      rw [hd]
      rfl
  | d :: ds, hd, hdepth => by
      obtain ⟨x, rest, rfl, hx, hrest⟩ := hd
      obtain ⟨hd, hds⟩ := Datum.heights_cons_le.mp hdepth
      rw [List.mapM_cons, Unfolds.treeWithin_eq hx hd, UnfoldsAll.mapM_treeWithin_eq hrest hds]
      rfl

end

mutual

/-- Below a syntax object there is a list of every height up to that of its tree. -/
theorem Unfolds.exists_list_of_height {x : Syntax} {k : Nat} (hk : 0 < k) :
    {d : Datum} → h.Unfolds x d → k ≤ d.height →
      ∃ (l : ListRef) (e : Datum), l.address < h.size ∧ h.Unfolds (.list l) e ∧ e.height = k
  | .symbol _, _, hle => absurd hle (Nat.not_le_of_gt hk)
  | .string _, _, hle => absurd hle (Nat.not_le_of_gt hk)
  | .number _, _, hle => absurd hle (Nat.not_le_of_gt hk)
  | .list ds, hd, hle => by
      obtain ⟨l, rfl, hplace, hall⟩ := hd
      -- Either the list itself has that height, or a list of that height is below an element.
      rcases Nat.eq_or_lt_of_le hle with heq | hlt
      · exact ⟨l, .list ds, hplace, unfolds_list.mpr ⟨hplace, hall⟩, heq.symm⟩
      · rw [Datum.height] at hlt
        exact UnfoldsAll.exists_list_of_height hk hall (Nat.le_of_lt_succ hlt)

theorem UnfoldsAll.exists_list_of_height {xs : List Syntax} {k : Nat} (hk : 0 < k) :
    {ds : List Datum} → h.UnfoldsAll xs ds → k ≤ Datum.heights ds →
      ∃ (l : ListRef) (e : Datum), l.address < h.size ∧ h.Unfolds (.list l) e ∧ e.height = k
  | [], _, hle => absurd hle (Nat.not_le_of_gt hk)
  | d :: ds, hd, hle => by
      obtain ⟨x, rest, rfl, hx, hrest⟩ := hd
      rw [Datum.heights] at hle
      rcases le_max_iff.mp hle with hfirst | hothers
      · exact Unfolds.exists_list_of_height hk hx hfirst
      · exact UnfoldsAll.exists_list_of_height hk hrest hothers

end

/-- A tree is no higher than the heap has cells: lists of different height have different
addresses. -/
theorem Unfolds.height_le_size {x : Syntax} {d : Datum} (hx : h.Unfolds x d) :
    d.height ≤ h.size := by
  have hlists (k : Fin d.height) : ∃ (l : ListRef) (e : Datum),
      l.address < h.size ∧ h.Unfolds (.list l) e ∧ e.height = k.val + 1 :=
    hx.exists_list_of_height (Nat.succ_pos k.val) k.isLt
  choose list tree hplace hunfolds hheight using hlists
  -- Lists at one address stand for one tree, and so for trees of one height.
  have hinjective : Function.Injective
      fun k : Fin d.height => (⟨(list k).address, hplace k⟩ : Fin h.size) := by
    intro j k hjk
    have haddress : (list j).address = (list k).address := congrArg Fin.val hjk
    have hlist : list j = list k := by
      cases hj : list j
      cases hk : list k
      simp_all
    have htree : tree j = tree k := (hlist ▸ hunfolds j).unique (hunfolds k)
    have hsame : j.val + 1 = k.val + 1 := by
      rw [← hheight j, ← hheight k, htree]
    exact Fin.ext (Nat.succ.inj hsame)
  simpa using Fintype.card_le_of_injective _ hinjective

/-- The tree of a syntax object is found. -/
theorem Unfolds.tree?_eq {x : Syntax} {d : Datum} (hx : h.Unfolds x d) : h.tree? x = some d :=
  hx.treeWithin_eq hx.height_le_size

/-- The written form of a syntax object is that of its tree. -/
theorem Unfolds.toText_eq {x : Syntax} {d : Datum} (hx : h.Unfolds x d) :
    h.toText x = some (.ok d.toText) := by
  unfold toText
  rw [hx.tree?_eq]
  rfl

/-! ## A place for every tree -/

/-- All lists of a heap are there, with the same elements, in another. -/
structure Extends (h h' : Heap) : Prop where
  size : h.size ≤ h'.size
  elements : ∀ l : ListRef, l.address < h.size → h'.elements l = h.elements l

theorem Extends.refl (h : Heap) : h.Extends h := ⟨le_rfl, fun _ _ => rfl⟩

theorem Extends.trans {h h' h'' : Heap} (hfirst : h.Extends h') (hsecond : h'.Extends h'') :
    h.Extends h'' where
  size := hfirst.size.trans hsecond.size
  elements l hl :=
    (hsecond.elements l (hl.trans_le hfirst.size)).trans (hfirst.elements l hl)

theorem extends_alloc (h : Heap) (elements : List Syntax) : h.Extends (h.alloc elements).2 where
  size := by
    rw [size_alloc]
    exact Nat.le_succ _
  elements _ hl := elements_alloc_of_lt hl elements

mutual

/-- What a syntax object stands for does not change when lists are added. -/
theorem Extends.unfolds {h h' : Heap} (hext : h.Extends h') {x : Syntax} :
    {d : Datum} → h.Unfolds x d → h'.Unfolds x d
  | .symbol _, hx => hx
  | .string _, hx => hx
  | .number _, hx => hx
  | .list ds, hx => by
      obtain ⟨l, rfl, hplace, hall⟩ := hx
      refine unfolds_list.mpr ⟨hplace.trans_le hext.size, ?_⟩
      rw [hext.elements l hplace]
      exact hext.unfoldsAll hall

theorem Extends.unfoldsAll {h h' : Heap} (hext : h.Extends h') {xs : List Syntax} :
    {ds : List Datum} → h.UnfoldsAll xs ds → h'.UnfoldsAll xs ds
  | [], hall => by
      rw [unfoldsAll_nil_right] at hall ⊢
      exact hall
  | d :: ds, hall => by
      obtain ⟨x, rest, rfl, hx, hrest⟩ := hall
      exact unfoldsAll_cons.mpr ⟨hext.unfolds hx, hext.unfoldsAll hrest⟩

end

mutual

/-- Every heap can be extended so that some object stands for a given tree. -/
theorem exists_unfolds (h : Heap) : (d : Datum) → ∃ h' x, h.Extends h' ∧ h'.Unfolds x d
  | .symbol s => ⟨h, .symbol s, .refl h, rfl⟩
  | .string text => ⟨h, .string text, .refl h, rfl⟩
  | .number n => ⟨h, .number n, .refl h, rfl⟩
  | .list ds => by
      obtain ⟨h', xs, hext, hall⟩ := exists_unfoldsAll h ds
      have hnew := extends_alloc h' xs
      refine ⟨(h'.alloc xs).2, .list (h'.alloc xs).1, hext.trans hnew, ?_⟩
      refine unfolds_list.mpr ⟨?_, ?_⟩
      · rw [size_alloc]
        exact Nat.lt_succ_self _
      · rw [elements_alloc_self]
        exact hnew.unfoldsAll hall

theorem exists_unfoldsAll (h : Heap) :
    (ds : List Datum) → ∃ h' xs, h.Extends h' ∧ h'.UnfoldsAll xs ds
  | [] => ⟨h, [], .refl h, unfoldsAll_nil_right.mpr rfl⟩
  | d :: ds => by
      obtain ⟨h', xs, hext, hall⟩ := exists_unfoldsAll h ds
      obtain ⟨h'', x, hext', hx⟩ := exists_unfolds h' d
      exact ⟨h'', x :: xs, hext.trans hext', unfoldsAll_cons.mpr ⟨hx, hext'.unfoldsAll hall⟩⟩

end

end Heap
end LispFront
