import LispFront.Proofs.Object.CoreSend
import LispFront.Proofs.Source.Faults
import LispFront.Proofs.Syntax.Unfolding
import LispFront.Source.Read

/-!
# Building forests

What the builder does with tokens.  `Grown` says that
from one heap to another a list got new elements that stand for a forest, all of whose lists are
new, and that no other list changed.  The tokens of a forest make the current list grow by that
forest (`exists_grown_of_tokens`); the lists that are open around it are left alone, because every
list below a new element was allocated after them.  Tokens that leave lists open leave as many of
them open in the builder (`exists_builder_of_opening`).
-/

namespace LispFront

namespace Heap

variable {h h' : Heap} {lo hi lo' hi' : Nat} {x : Syntax} {xs : List Syntax}

mutual

/-- The syntax object stands for the tree, and all lists in it have addresses from `lo` to below
`hi`. -/
def UnfoldsWithin (h : Heap) (lo hi : Nat) (x : Syntax) : Datum → Prop
  | .symbol s => x = .symbol s
  | .string text => x = .string text
  | .number n => x = .number n
  | .list ds => ∃ l, x = .list l ∧ lo ≤ l.address ∧ l.address < hi ∧
      UnfoldsAllWithin h lo hi (h.elements l) ds

/-- The syntax objects stand for the trees, one for one, with all lists at these addresses. -/
def UnfoldsAllWithin (h : Heap) (lo hi : Nat) (xs : List Syntax) : List Datum → Prop
  | [] => xs = []
  | d :: ds => ∃ x rest, xs = x :: rest ∧ UnfoldsWithin h lo hi x d ∧
      UnfoldsAllWithin h lo hi rest ds

end

mutual

/-- Objects stand for the same trees where the lists at these addresses are the same. -/
theorem UnfoldsWithin.frame (hlo : lo' ≤ lo) (hhi : hi ≤ hi')
    (hsame : ∀ l : ListRef, lo ≤ l.address → l.address < hi → h'.elements l = h.elements l) :
    {d : Datum} → {x : Syntax} → h.UnfoldsWithin lo hi x d → h'.UnfoldsWithin lo' hi' x d
  | .symbol _, _, hx => hx
  | .string _, _, hx => hx
  | .number _, _, hx => hx
  | .list ds, _, hx => by
      obtain ⟨l, rfl, hfrom, hto, hall⟩ := hx
      refine ⟨l, rfl, hlo.trans hfrom, hto.trans_le hhi, ?_⟩
      rw [hsame l hfrom hto]
      exact UnfoldsAllWithin.frame hlo hhi hsame hall

theorem UnfoldsAllWithin.frame (hlo : lo' ≤ lo) (hhi : hi ≤ hi')
    (hsame : ∀ l : ListRef, lo ≤ l.address → l.address < hi → h'.elements l = h.elements l) :
    {ds : List Datum} → {xs : List Syntax} → h.UnfoldsAllWithin lo hi xs ds →
      h'.UnfoldsAllWithin lo' hi' xs ds
  | [], _, hall => hall
  | d :: ds, _, hall => by
      obtain ⟨x, rest, rfl, hx, hrest⟩ := hall
      exact ⟨x, rest, rfl, hx.frame hlo hhi hsame, UnfoldsAllWithin.frame hlo hhi hsame hrest⟩

end

mutual

theorem UnfoldsWithin.unfolds (hhi : hi ≤ h.size) :
    {d : Datum} → {x : Syntax} → h.UnfoldsWithin lo hi x d → h.Unfolds x d
  | .symbol _, _, hx => hx
  | .string _, _, hx => hx
  | .number _, _, hx => hx
  | .list ds, _, hx => by
      obtain ⟨l, rfl, -, hto, hall⟩ := hx
      exact unfolds_list.mpr ⟨hto.trans_le hhi, UnfoldsAllWithin.unfoldsAll hhi hall⟩

theorem UnfoldsAllWithin.unfoldsAll (hhi : hi ≤ h.size) :
    {ds : List Datum} → {xs : List Syntax} → h.UnfoldsAllWithin lo hi xs ds → h.UnfoldsAll xs ds
  | [], _, hall => unfoldsAll_nil_right.mpr hall
  | d :: ds, _, hall => by
      obtain ⟨x, rest, rfl, hx, hrest⟩ := hall
      exact unfoldsAll_cons.mpr ⟨hx.unfolds hhi, UnfoldsAllWithin.unfoldsAll hhi hrest⟩

end

/-! ## Growth of one list -/

/-- From `h` to `h'` the list `l` got new elements that stand for the forest, with new lists in
them, and no other list changed. -/
structure Grown (h : Heap) (l : ListRef) (h' : Heap) (ds : List Datum) : Prop where
  size : h.size ≤ h'.size
  others : ∀ k : ListRef, k.address < h.size → k ≠ l → h'.elements k = h.elements k
  added : ∃ xs, h'.elements l = h.elements l ++ xs ∧ h'.UnfoldsAllWithin h.size h'.size xs ds

variable {l : ListRef} {ds : List Datum}

theorem Grown.refl (h : Heap) (l : ListRef) : Grown h l h [] where
  size := le_rfl
  others _ _ _ := rfl
  added := ⟨[], (List.append_nil _).symm, rfl⟩

/-- One more element in front, in which there are no lists. -/
theorem Grown.leaf {d : Datum} (hl : l.address < h.size)
    (hx : ∀ (h : Heap) (lo hi : Nat), h.UnfoldsWithin lo hi x d)
    (hrest : Grown (h.append l x) l h' ds) : Grown h l h' (d :: ds) where
  size := by
    have hsize := hrest.size
    rw [size_append] at hsize
    exact hsize
  others := by
    intro k hk hne
    rw [hrest.others k (by rw [size_append]; exact hk) hne, elements_append_of_ne hne]
  added := by
    obtain ⟨xs, hxs, hall⟩ := hrest.added
    rw [elements_append_self hl, List.append_assoc] at hxs
    rw [size_append] at hall
    exact ⟨x :: xs, hxs, x, xs, rfl, hx _ _ _, hall⟩

/-- One more list in front: it is allocated, added to `l` and grows itself before `l` grows
further. -/
theorem Grown.list {h₁ : Heap} {inner : List Datum} (hl : l.address < h.size)
    (hinner : Grown ((h.alloc []).2.append l (.list ⟨h.size⟩)) ⟨h.size⟩ h₁ inner)
    (hrest : Grown h₁ l h' ds) : Grown h l h' (.list inner :: ds) := by
  have hfresh : l ≠ ⟨h.size⟩ := by
    rintro rfl
    exact Nat.lt_irrefl _ hl
  have hsize₁ := hinner.size
  rw [size_append, size_alloc] at hsize₁
  have hsize := hrest.size
  refine ⟨by omega, ?_, ?_⟩
  -- No other list changed: neither the growth of the new list nor that of `l` touched it.
  · intro k hk hne
    have hnew : k ≠ ⟨h.size⟩ := by
      rintro rfl
      exact Nat.lt_irrefl _ hk
    rw [hrest.others k (by omega) hne, hinner.others k (by simp; omega) hnew,
      elements_append_of_ne hne, elements_alloc_of_lt hk]
  · obtain ⟨xs, hxs, hall⟩ := hrest.added
    obtain ⟨ys, hys, hinnerAll⟩ := hinner.added
    have hnone : ((h.alloc []).2.append l (.list ⟨h.size⟩)).elements ⟨h.size⟩ = [] := by
      rw [elements_append_of_ne (Ne.symm hfresh)]
      exact elements_alloc_self h []
    rw [hnone, List.nil_append] at hys
    have hbefore : h₁.elements l = h.elements l ++ [.list ⟨h.size⟩] := by
      rw [hinner.others l (by simp; omega) hfresh, elements_append_self (by simp; omega),
        elements_alloc_of_lt hl]
    rw [hbefore, List.append_assoc] at hxs
    -- The new list has not changed since it was closed, nor has any list in it.
    have hkept : h'.elements ⟨h.size⟩ = ys := by
      rw [hrest.others ⟨h.size⟩ hsize₁ (Ne.symm hfresh), hys]
    have hbelow : h'.UnfoldsAllWithin h.size h'.size ys inner := by
      refine hinnerAll.frame (by simp) hsize fun k hfrom hto => hrest.others k hto ?_
      rw [size_append, size_alloc] at hfrom
      rintro rfl
      omega
    refine ⟨.list ⟨h.size⟩ :: xs, hxs, .list ⟨h.size⟩, xs, rfl, ?_, ?_⟩
    · refine ⟨⟨h.size⟩, rfl, le_rfl, by simp; omega, ?_⟩
      rw [hkept]
      exact hbelow
    · exact hall.frame (by omega) le_rfl fun _ _ _ => rfl

theorem Grown.extends (hgrown : Grown (h.alloc []).2 ⟨h.size⟩ h' ds) : h.Extends h' where
  size := by
    have hsize := hgrown.size
    rw [size_alloc] at hsize
    omega
  elements k hk := by
    have hne : k ≠ ⟨h.size⟩ := by
      rintro rfl
      exact Nat.lt_irrefl _ hk
    rw [hgrown.others k (by simp; omega) hne, elements_alloc_of_lt hk]

/-- A list that was empty when it began to grow stands for what it grew by. -/
theorem Grown.unfolds (hgrown : Grown (h.alloc []).2 ⟨h.size⟩ h' ds) :
    h'.Unfolds (.list ⟨h.size⟩) (.list ds) := by
  obtain ⟨xs, hxs, hall⟩ := hgrown.added
  have hnone : (h.alloc []).2.elements ⟨h.size⟩ = [] := elements_alloc_self h []
  have hsize := hgrown.size
  rw [size_alloc] at hsize
  rw [hnone, List.nil_append] at hxs
  refine unfolds_list.mpr ⟨hsize, ?_⟩
  rw [hxs]
  exact hall.unfoldsAll le_rfl

end Heap

/-! ## The steps of the builder -/

namespace Builder

variable {sys : ObjectSystem} {n m : Nat} {b : Builder}

/-- An element is added to the current list. -/
theorem answers_addElement (hr : sys.registry.Booted) (hat : Registry.CoreAt sys.registry n m)
    (hb : b.add = ⟨m⟩) (element : Syntax) (h : Heap) :
    (b.addElement sys element).Answers h (.ok ()) (h.append b.current element) := by
  have hadd := ObjectSystem.answers_add hr hat h b.current element
  unfold addElement
  rw [hb]
  exact hadd.bind_ok (Exec.answers_pure () _)

/-- A list is opened by adding a new one to the current list. -/
theorem answers_push (hr : sys.registry.Booted) (hat : Registry.CoreAt sys.registry n m)
    (hb : b.add = ⟨m⟩) (h : Heap) :
    (b.push sys).Answers h (.ok { b with opened := ⟨h.size⟩ :: b.opened })
      ((h.alloc []).2.append b.current (.list ⟨h.size⟩)) := by
  unfold push
  refine (Exec.answers_alloc [] h).bind_ok ?_
  exact (answers_addElement hr hat hb _ _).bind_ok (Exec.answers_pure _ _)

/-- In a booted system there is a builder, whose root is new. -/
theorem answers_new (hat : Registry.CoreAt sys.registry n m) (h : Heap) :
    (new sys).Answers h (.ok ⟨⟨m⟩, ⟨h.size⟩, []⟩) (h.alloc []).2 := by
  unfold new
  rw [hat.getCore_eq]
  refine (Exec.answers_ofExcept _ h).bind_ok ((Exec.answers_alloc [] h).bind_ok ?_)
  exact Exec.answers_pure _ _

end Builder

namespace Source

variable {sys : ObjectSystem} {n m : Nat} {source : List Char}

/-! ## The tokens of a forest are built into it -/

/-- What building the tokens of a forest does, whatever is built after them: the current list grows
by the forest, and the builder is as it was before. -/
theorem exists_grown_of_tokens (source : List Char) (hr : sys.registry.Booted)
    (hat : Registry.CoreAt sys.registry n m) {ds : List Datum} {tokens : List Token}
    (htokens : Tokens ds tokens) {lexemes : List Lexeme}
    (hlexemes : lexemes.map Lexeme.token = tokens) {b : Builder} (hb : b.add = ⟨m⟩) {h : Heap}
    (hcurrent : b.current.address < h.size) (unclosed : List (List Char)) :
    ∃ h', Heap.Grown h b.current h' ds ∧
      ∀ (later : List Lexeme) (result : Except Error (List (List Char) × Builder)) (h'' : Heap),
        (build sys source later unclosed b).Answers h' result h'' →
        (build sys source (lexemes ++ later) unclosed b).Answers h result h'' := by
  induction htokens generalizing lexemes b h unclosed with
  | nil =>
      obtain rfl := List.map_eq_nil_iff.mp hlexemes
      exact ⟨h, .refl h b.current, fun _ _ _ hlater => hlater⟩
  | @symbol name ds tokens _ ih =>
      obtain ⟨⟨token, start⟩, lexemes, rfl, htoken, hrest⟩ := List.map_eq_cons_iff.mp hlexemes
      obtain rfl : token = .atom name := htoken
      have hadd := Builder.answers_addElement hr hat hb (.ofSymbol ⟨name⟩) h
      have hplace : b.current.address < (h.append b.current (.ofSymbol ⟨name⟩)).size := by
        rw [Heap.size_append]
        exact hcurrent
      obtain ⟨h', hgrown, hbuild⟩ := ih hrest hb hplace unclosed
      refine ⟨h', hgrown.leaf hcurrent fun _ _ _ => rfl, fun later result h'' hlater => ?_⟩
      rw [List.cons_append, build]
      exact hadd.bind_ok (hbuild later result h'' hlater)
  | @string text ds tokens _ ih =>
      obtain ⟨⟨token, start⟩, lexemes, rfl, htoken, hrest⟩ := List.map_eq_cons_iff.mp hlexemes
      obtain rfl : token = .string text := htoken
      have hadd := Builder.answers_addElement hr hat hb (.string text) h
      have hplace : b.current.address < (h.append b.current (.string text)).size := by
        rw [Heap.size_append]
        exact hcurrent
      obtain ⟨h', hgrown, hbuild⟩ := ih hrest hb hplace unclosed
      refine ⟨h', hgrown.leaf hcurrent fun _ _ _ => rfl, fun later result h'' hlater => ?_⟩
      rw [List.cons_append, build]
      exact hadd.bind_ok (hbuild later result h'' hlater)
  | @list elements ds inner tokens _ _ ihInner ih =>
      rw [List.cons_append] at hlexemes
      obtain ⟨⟨token, start⟩, lexemes, rfl, htoken, hopened⟩ := List.map_eq_cons_iff.mp hlexemes
      obtain rfl : token = .openList := htoken
      obtain ⟨inside, lexemes, rfl, hinside, hclosed⟩ := List.map_eq_append_iff.mp hopened
      obtain ⟨⟨token, last⟩, lexemes, rfl, htoken, hrest⟩ := List.map_eq_cons_iff.mp hclosed
      obtain rfl : token = .closeList := htoken
      -- The list grows while it is current; then it is closed, and its parent grows further.
      have hpush := Builder.answers_push hr hat hb h
      obtain ⟨h₁, hgrownInner, hbuildInner⟩ := ihInner hinside
        (b := { b with opened := ⟨h.size⟩ :: b.opened }) hb
        (h := (h.alloc []).2.append b.current (.list ⟨h.size⟩))
        (by simp [Builder.current]) (start :: unclosed)
      have hsize := hgrownInner.size
      rw [Heap.size_append, Heap.size_alloc] at hsize
      obtain ⟨h', hgrown, hbuild⟩ := ih hrest hb (h := h₁) (by omega) unclosed
      refine ⟨h', .list hcurrent hgrownInner hgrown, fun later result h'' hlater => ?_⟩
      rw [List.cons_append, List.append_assoc, List.cons_append, build]
      refine hpush.bind_ok (hbuildInner _ result h'' ?_)
      rw [build]
      exact hbuild later result h'' hlater

/-! ## Lists that stay open -/

/-- What building tokens that leave lists open does, whatever is built after them: so many lists
more are open in the builder. -/
theorem exists_builder_of_opening (source : List Char) (hr : sys.registry.Booted)
    (hat : Registry.CoreAt sys.registry n m) {depth : Nat} {tokens : List Token}
    (hopening : Opening depth tokens) {lexemes : List Lexeme}
    (hlexemes : lexemes.map Lexeme.token = tokens) {b : Builder} (hb : b.add = ⟨m⟩) {h : Heap}
    (hcurrent : b.current.address < h.size) (unclosed : List (List Char)) :
    ∃ (h' : Heap) (b' : Builder) (unclosed' : List (List Char)), b'.add = ⟨m⟩ ∧
      b'.depth = b.depth + depth ∧ b'.current.address < h'.size ∧
      ∀ (later : List Lexeme) (result : Except Error (List (List Char) × Builder)) (h'' : Heap),
        (build sys source later unclosed' b').Answers h' result h'' →
        (build sys source (lexemes ++ later) unclosed b).Answers h result h'' := by
  induction hopening generalizing lexemes with
  | zero htokens =>
      obtain ⟨h', hgrown, hbuild⟩ :=
        exists_grown_of_tokens source hr hat htokens hlexemes hb hcurrent unclosed
      exact ⟨h', b, unclosed, hb, rfl, hcurrent.trans_le hgrown.size, hbuild⟩
  | @succ depth ds before inner _ hinner ih =>
      obtain ⟨first, lexemes, rfl, hfirst, hopened⟩ := List.map_eq_append_iff.mp hlexemes
      obtain ⟨⟨token, start⟩, lexemes, rfl, htoken, hinside⟩ := List.map_eq_cons_iff.mp hopened
      obtain rfl : token = .openList := htoken
      obtain ⟨h₁, b₁, unclosed₁, hb₁, hdepth, hcurrent₁, hbuild₁⟩ := ih hfirst
      have hpush := Builder.answers_push hr hat hb₁ h₁
      obtain ⟨h', hgrown, hbuild⟩ := exists_grown_of_tokens source hr hat hinner hinside
        (b := { b₁ with opened := ⟨h₁.size⟩ :: b₁.opened }) hb₁
        (h := (h₁.alloc []).2.append b₁.current (.list ⟨h₁.size⟩))
        (by simp [Builder.current]) (start :: unclosed₁)
      have hsize := hgrown.size
      rw [Heap.size_append, Heap.size_alloc] at hsize
      refine ⟨h', { b₁ with opened := ⟨h₁.size⟩ :: b₁.opened }, start :: unclosed₁, hb₁, ?_, hsize,
        fun later result h'' hlater => ?_⟩
      · show b₁.depth + 1 = _
        rw [hdepth, Nat.add_assoc]
      · rw [List.append_assoc]
        refine hbuild₁ _ result h'' ?_
        rw [List.cons_append, build]
        exact hpush.bind_ok (hbuild later result h'' hlater)

end Source
end LispFront
