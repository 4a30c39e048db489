import LispFront.Proofs.Object.CoreSend
import LispFront.Proofs.Source.Building
import LispFront.Proofs.Syntax.Paths

/-!
# Steps that are not balanced

What the builder makes of any steps, when the caller goes on after one that fails.  Only closing a
list can fail, and it fails when no list is open.  `Spine` describes the lists that are open, from
the innermost one outwards: every one is the last element of the next, and what stands before it is
complete.  A step takes a spine to a spine (`Assembled.leaf`, `Assembled.push`, `Assembled.pop`),
and so does a run (`Assembled.exists_answers_takeAll`).
-/

namespace LispFront

open Source

namespace Heap

variable {h h' : Heap} {l : ListRef} {x : Syntax} {xs ys extra : List Syntax} {lo hi : Nat}
  {d : Datum} {ds ds' : List Datum}

theorem unfoldsAllWithin_nil (h : Heap) (lo hi : Nat) : h.UnfoldsAllWithin lo hi [] [] := rfl

theorem UnfoldsAllWithin.concat (hall : h.UnfoldsAllWithin lo hi xs ds)
    (hx : h.UnfoldsWithin lo hi x d) : h.UnfoldsAllWithin lo hi (xs ++ [x]) (ds ++ [d]) := by
  induction ds generalizing xs with
  | nil =>
      obtain rfl : xs = [] := hall
      exact ⟨x, [], rfl, hx, rfl⟩
  | cons d' ds ih =>
      obtain ⟨y, ys, rfl, hy, hys⟩ := hall
      exact ⟨y, ys ++ [x], rfl, hy, ih hys⟩

/-- A list whose elements stand for the forest, apart from the extra ones at its end.  All lists in
the forest come after it. -/
structure Filled (h : Heap) (l : ListRef) (extra : List Syntax) (hi : Nat) (ds : List Datum) :
    Prop where
  place : l.address < hi
  elements : ∃ xs, h.elements l = xs ++ extra ∧ h.UnfoldsAllWithin (l.address + 1) hi xs ds

/-- A forest in a list is not touched by changes of that list alone. -/
theorem Filled.unfoldsAllWithin (hfilled : h.Filled l [] hi ds)
    (hsame : ∀ k : ListRef, k ≠ l → h'.elements k = h.elements k) :
    h'.UnfoldsAllWithin (l.address + 1) hi (h.elements l) ds := by
  obtain ⟨xs, hxs, hall⟩ := hfilled.elements
  rw [List.append_nil] at hxs
  rw [hxs]
  refine hall.frame le_rfl le_rfl fun k hk _ => hsame k ?_
  rintro rfl
  omega

/-- Lists from the innermost one outwards, each the last element of the next, and the tokens of all
that they hold.  The innermost list has extra elements at its end. -/
inductive Spine (h : Heap) : (extra : List Syntax) → (hi : Nat) → List ListRef → List Token → Prop
  | root {extra : List Syntax} {hi : Nat} {l : ListRef} {ds : List Datum} {tokens : List Token}
      (hfilled : h.Filled l extra hi ds) (htokens : Tokens ds tokens) :
      Spine h extra hi [l] tokens
  | inner {extra : List Syntax} {hi : Nat} {l : ListRef} {around : List ListRef} {ds : List Datum}
      {before tokens : List Token} (haround : Spine h [.list l] l.address around before)
      (hfilled : h.Filled l extra hi ds) (htokens : Tokens ds tokens) :
      Spine h extra hi (l :: around) (before ++ .openList :: tokens)

/-! ## Parts of a spine that stay the same -/

variable {around : List ListRef} {tokens : List Token}

theorem Filled.frame (hfilled : h.Filled l extra hi ds)
    (hsame : ∀ k : ListRef, k.address < hi → h'.elements k = h.elements k) :
    h'.Filled l extra hi ds := by
  obtain ⟨xs, hxs, hall⟩ := hfilled.elements
  refine ⟨hfilled.place, xs, ?_, hall.frame le_rfl le_rfl fun k _ hk => hsame k hk⟩
  rw [hsame l hfilled.place, hxs]

theorem Spine.frame (hspine : h.Spine extra hi around tokens)
    (hsame : ∀ k : ListRef, k.address < hi → h'.elements k = h.elements k) :
    h'.Spine extra hi around tokens := by
  induction hspine with
  | root hfilled htokens => exact .root (hfilled.frame hsame) htokens
  | inner _ hfilled htokens ih =>
      refine .inner (ih fun k hk => ?_) (hfilled.frame hsame) htokens
      exact hsame k (hk.trans hfilled.place)

/-- The innermost list is filled further, and nothing that comes before it changes. -/
theorem Spine.fill {extra' : List Syntax} {hi' : Nat} {later : List Token}
    (hspine : h.Spine extra hi (l :: around) tokens) (hlater : Tokens ds' later)
    (hsame : ∀ k : ListRef, k.address < l.address → h'.elements k = h.elements k)
    (hfill : ∀ ds, h.Filled l extra hi ds → h'.Filled l extra' hi' (ds ++ ds')) :
    h'.Spine extra' hi' (l :: around) (tokens ++ later) := by
  cases hspine with
  | root hfilled htokens => exact .root (hfill _ hfilled) (htokens.append hlater)
  | inner haround hfilled htokens =>
      rw [List.append_assoc, List.cons_append]
      exact .inner (haround.frame hsame) (hfill _ hfilled) (htokens.append hlater)

theorem Spine.exists_filled (hspine : h.Spine extra hi (l :: around) tokens) :
    ∃ ds, h.Filled l extra hi ds := by
  cases hspine with
  | root hfilled => exact ⟨_, hfilled⟩
  | inner _ hfilled => exact ⟨_, hfilled⟩

/-! ## What a spine says -/

/-- Each list of a spine is the last element of the next one. -/
theorem Spine.isChain (hspine : h.Spine extra hi around tokens) :
    around.IsChain fun inner outer => (h.elements outer).getLast? = some (.list inner) := by
  induction hspine with
  | root => exact .singleton _
  | @inner _ _ l around _ _ _ haround _ _ ih =>
      cases around with
      | nil => exact .singleton _
      | cons outer around =>
          refine .cons_cons ?_ ih
          obtain ⟨ds, hfilled⟩ := haround.exists_filled
          obtain ⟨xs, hxs, -⟩ := hfilled.elements
          rw [hxs, List.getLast?_concat]

end Heap

/-- A forest opens as many lists as it closes. -/
theorem Source.Tokens.count_eq {ds : List Datum} {tokens : List Token} (h : Tokens ds tokens) :
    tokens.count .closeList = tokens.count .openList := by
  induction h with
  | nil => rfl
  | symbol _ ih => simpa using ih
  | string _ ih => simpa using ih
  | list _ _ ihInner ih =>
      simp only [List.cons_append, List.count_cons_self, List.count_append,
        List.count_cons_of_ne (show Token.openList ≠ .closeList by decide),
        List.count_cons_of_ne (show Token.closeList ≠ .openList by decide)]
      omega

/-- Of the lists that were opened those of the spine are left, its root apart. -/
theorem Heap.Spine.length_add_count {h : Heap} {extra : List Syntax} {hi : Nat}
    {around : List ListRef} {tokens : List Token} (hspine : h.Spine extra hi around tokens) :
    around.length + tokens.count .closeList = tokens.count .openList + 1 := by
  induction hspine with
  | root _ htokens =>
      rw [htokens.count_eq, List.length_singleton, Nat.add_comm]
  | inner _ _ htokens ih =>
      have hcount := htokens.count_eq
      simp only [List.length_cons, List.count_append, List.count_cons_self,
        List.count_cons_of_ne (show Token.openList ≠ .closeList by decide)]
      omega

namespace Builder

/-! ## Steps -/

/-- One step of the builder.  Parentheses open and close lists, the other tokens are elements. -/
def take (sys : ObjectSystem) (b : Builder) : Token → Exec Builder
  | .openList => b.push sys
  | .closeList => Exec.ofExcept b.pop
  | .string text => do
    b.addString sys text
    return b
  | .atom name => do
    b.addSymbol sys name
    return b

/-- Takes steps one after the other.  When one fails, the next is taken with the builder as it was
before.  Returns the steps that did not fail, and the builder. -/
def takeAll (sys : ObjectSystem) : List Token → Builder → Exec (List Token × Builder)
  | [], b => return ([], b)
  | step :: rest, b => do
    match ← (b.take sys step).attempt with
    | .ok b => do
      let (taken, b) ← takeAll sys rest b
      return (step :: taken, b)
    | .error _ => takeAll sys rest b

/-- The steps without the closing parentheses that come when no list is open; so many lists are open
before the steps. -/
def matched : (depth : Nat) → List Token → List Token
  | _, [] => []
  | depth, .openList :: rest => .openList :: matched (depth + 1) rest
  | 0, .closeList :: rest => matched 0 rest
  | depth + 1, .closeList :: rest => .closeList :: matched depth rest
  | depth, .string text :: rest => .string text :: matched depth rest
  | depth, .atom name :: rest => .atom name :: matched depth rest

/-- Nothing but closing parentheses is left out. -/
theorem count_matched (depth : Nat) (steps : List Token) {step : Token} (h : step ≠ .closeList) :
    (matched depth steps).count step = steps.count step := by
  fun_induction matched depth steps with
  | case1 => rfl
  | case3 rest ih => rw [ih, List.count_cons_of_ne h.symm]
  | case2 _ _ ih | case4 _ _ ih | case5 _ _ _ ih | case6 _ _ _ ih =>
      rw [List.count_cons, List.count_cons, ih]

/-! ## What steps assemble -/

/-- The builder and the heap after these steps, none of which failed. -/
structure Assembled (b : Builder) (h : Heap) (tokens : List Token) : Prop where
  spine : h.Spine [] h.size (b.opened ++ [b.root]) tokens
  unshared : h.Unshared b.root.address

variable {sys : ObjectSystem} {n m : Nat} {b : Builder} {h : Heap} {tokens steps : List Token}

/-- The current list is the innermost one, be it the root or not. -/
theorem exists_around (b : Builder) : ∃ around, b.opened ++ [b.root] = b.current :: around := by
  unfold current
  cases b.opened with
  | nil => exact ⟨[], rfl⟩
  | cons l rest => exact ⟨rest ++ [b.root], rfl⟩

theorem Assembled.current_lt (hasm : Assembled b h tokens) : b.current.address < h.size := by
  obtain ⟨around, haround⟩ := b.exists_around
  obtain ⟨ds, hfilled⟩ := (haround ▸ hasm.spine).exists_filled
  exact hfilled.place

/-- A new builder has assembled nothing. -/
theorem assembled_new (m : Nat) (h : Heap) :
    Assembled ⟨⟨m⟩, ⟨h.size⟩, []⟩ (h.alloc []).2 [] where
  spine := by
    have hnone : (h.alloc []).2.elements ⟨h.size⟩ = [] := Heap.elements_alloc_self h []
    refine .root ⟨?_, [], hnone, Heap.unfoldsAllWithin_nil _ _ _⟩ .nil
    rw [Heap.size_alloc]
    exact Nat.lt_succ_self _
  unshared := Heap.unshared_of_elements_eq_nil fun k hk => by
    rw [Heap.elements_alloc_nil, Heap.elements_eq_nil hk]

/-- An element in which there are no lists. -/
theorem Assembled.leaf (hasm : Assembled b h tokens) {x : Syntax} {d : Datum} {step : Token}
    (hx : ∀ (h : Heap) (lo hi : Nat), h.UnfoldsWithin lo hi x d) (hleaf : x.isList = false)
    (hstep : Tokens [d] [step]) : Assembled b (h.append b.current x) (tokens ++ [step]) where
  spine := by
    have hcurrent := hasm.current_lt
    obtain ⟨around, haround⟩ := b.exists_around
    have hspine := hasm.spine
    rw [haround] at hspine ⊢
    have hsame (k : ListRef) (hk : k ≠ b.current) :
        (h.append b.current x).elements k = h.elements k :=
      Heap.elements_append_of_ne hk h x
    refine hspine.fill hstep (fun k hk => hsame k (by rintro rfl; omega)) fun ds hfilled => ?_
    rw [Heap.size_append]
    refine ⟨hcurrent, h.elements b.current ++ [x], ?_,
      (hfilled.unfoldsAllWithin hsame).concat (hx _ _ _)⟩
    rw [Heap.elements_append_self hcurrent, List.append_nil]
  unshared := hasm.unshared.append _ hleaf

/-- A new list, which is the innermost one now. -/
theorem Assembled.push (hasm : Assembled b h tokens) :
    Assembled { b with opened := ⟨h.size⟩ :: b.opened }
      ((h.alloc []).2.append b.current (.list ⟨h.size⟩)) (tokens ++ [.openList]) where
  spine := by
    have hcurrent := hasm.current_lt
    obtain ⟨around, haround⟩ := b.exists_around
    have hspine := hasm.spine
    have hsame (k : ListRef) (hk : k ≠ b.current) :
        ((h.alloc []).2.append b.current (.list ⟨h.size⟩)).elements k = h.elements k := by
      rw [Heap.elements_append_of_ne hk, Heap.elements_alloc_nil]
    have hlarger : b.current.address < (h.alloc []).2.size := by
      rw [Heap.size_alloc]
      omega
    rw [List.cons_append, Heap.size_append, Heap.size_alloc]
    refine .inner ?_ ⟨Nat.lt_succ_self _, [], ?_, Heap.unfoldsAllWithin_nil _ _ _⟩ .nil
    · rw [haround] at hspine ⊢
      rw [← List.append_nil tokens]
      refine hspine.fill .nil (fun k hk => hsame k (by rintro rfl; omega)) fun ds hfilled => ?_
      rw [List.append_nil]
      refine ⟨hcurrent, h.elements b.current, ?_, hfilled.unfoldsAllWithin hsame⟩
      rw [Heap.elements_append_self hlarger, Heap.elements_alloc_nil]
    · have hfresh : (⟨h.size⟩ : ListRef) ≠ b.current := by
        intro heq
        rw [← heq] at hcurrent
        exact Nat.lt_irrefl _ hcurrent
      exact (hsame _ hfresh).trans (Heap.elements_eq_nil le_rfl)
  unshared := hasm.unshared.alloc hasm.current_lt

/-- The innermost list is complete, and an element of the next one. -/
theorem Assembled.pop {l : ListRef} {rest : List ListRef} (hasm : Assembled b h tokens)
    (hopened : b.opened = l :: rest) :
    Assembled { b with opened := rest } h (tokens ++ [.closeList]) where
  spine := by
    obtain ⟨outer, around, houter⟩ : ∃ outer around, rest ++ [b.root] = outer :: around :=
      List.exists_cons_of_ne_nil (by simp)
    have hspine := hasm.spine
    rw [hopened, List.cons_append, houter] at hspine
    show h.Spine [] h.size (rest ++ [b.root]) _
    rw [houter]
    cases hspine with
    | @inner _ _ _ _ ds before inside haround hfilled htokens =>
        rw [List.append_assoc, List.cons_append]
        refine haround.fill (.list htokens .nil) (fun _ _ => rfl) fun ds' hfilled' => ?_
        obtain ⟨xs, hxs, hall⟩ := hfilled'.elements
        have hplace := hfilled.place
        have hplace' := hfilled'.place
        refine ⟨hplace'.trans hplace, xs ++ [.list l], by rw [hxs, List.append_nil], .concat ?_ ?_⟩
        · exact hall.frame le_rfl hplace.le fun _ _ _ => rfl
        · refine ⟨l, rfl, hplace', hplace, ?_⟩
          exact (hfilled.unfoldsAllWithin fun _ _ => rfl).frame (by omega) le_rfl fun _ _ _ => rfl
  unshared := hasm.unshared

/-- As many lists are open as were opened and not closed. -/
theorem Assembled.depth_add_count (hasm : Assembled b h tokens) :
    b.depth + tokens.count .closeList = tokens.count .openList := by
  have hcount := hasm.spine.length_add_count
  rw [List.length_append, List.length_singleton] at hcount
  unfold depth
  omega

/-- When no list is open, the root stands for a forest with these tokens. -/
theorem Assembled.exists_unfolds (hasm : Assembled b h tokens) (hdepth : b.depth = 0) :
    ∃ ds, h.Unfolds (.list b.root) (.list ds) ∧ Tokens ds tokens := by
  have hspine := hasm.spine
  rw [List.eq_nil_of_length_eq_zero hdepth, List.nil_append] at hspine
  cases hspine with
  | @root _ _ _ ds _ hfilled htokens =>
      obtain ⟨xs, hxs, hall⟩ := hfilled.elements
      refine ⟨ds, Heap.unfolds_list.mpr ⟨hfilled.place, ?_⟩, htokens⟩
      rw [hxs, List.append_nil]
      exact hall.unfoldsAll le_rfl
  | inner haround => cases haround

/-! ## What steps answer -/

theorem pop_eq_error (hdepth : b.depth = 0) : b.pop = .error (fault .closeWithoutOpen) := by
  unfold pop
  rw [List.eq_nil_of_length_eq_zero hdepth]

theorem pop_eq_ok {l : ListRef} {rest : List ListRef} (hopened : b.opened = l :: rest) :
    b.pop = .ok { b with opened := rest } := by
  unfold pop
  rw [hopened]

/-- A list that is not open cannot be closed. -/
theorem runFrom_take_closeList (hdepth : b.depth = 0) (s : Store) :
    (b.take sys .closeList).runFrom s = some (.error (fault .closeWithoutOpen), s) := by
  show (Exec.ofExcept b.pop).runFrom s = _
  rw [pop_eq_error hdepth, Exec.runFrom_ofExcept]

/-- Every other step is taken. -/
theorem Assembled.exists_answers_take (hasm : Assembled b h tokens) (hr : sys.registry.Booted)
    (hat : Registry.CoreAt sys.registry n m) (hb : b.add = ⟨m⟩) {step : Token}
    (hstep : ¬(step = .closeList ∧ b.depth = 0)) :
    ∃ b' h', (b.take sys step).Answers h (.ok b') h' ∧ b'.add = ⟨m⟩ ∧
      Assembled b' h' (tokens ++ [step]) ∧
      ∀ rest, matched b.depth (step :: rest) = step :: matched b'.depth rest := by
  cases step with
  | openList =>
      refine ⟨_, _, answers_push hr hat hb h, hb, hasm.push, fun rest => ?_⟩
      rw [matched]
      rfl
  | closeList =>
      cases hopened : b.opened with
      | nil => exact absurd ⟨rfl, congrArg List.length hopened⟩ hstep
      | cons l around =>
          refine ⟨{ b with opened := around }, h, ?_, hb, hasm.pop hopened, fun rest => ?_⟩
          · show (Exec.ofExcept b.pop).Answers h _ h
            rw [pop_eq_ok hopened]
            exact Exec.answers_ofExcept _ h
          · rw [show b.depth = around.length + 1 by rw [depth, hopened, List.length_cons], matched]
            rfl
  | string text =>
      have hadd := answers_addElement hr hat hb (.string text) h
      refine ⟨b, _, hadd.bind_ok (Exec.answers_pure _ _), hb, ?_, fun rest => ?_⟩
      · exact hasm.leaf (d := .string text) (fun _ _ _ => rfl) rfl (.string .nil)
      · rw [matched]
  | atom name =>
      have hadd := answers_addElement hr hat hb (.ofSymbol ⟨name⟩) h
      refine ⟨b, _, hadd.bind_ok (Exec.answers_pure _ _), hb, ?_, fun rest => ?_⟩
      · exact hasm.leaf (d := .symbol ⟨⟨name⟩, none⟩) (fun _ _ _ => rfl) rfl (.symbol .nil)
      · rw [matched]

/-- The steps that do not fail are those that `matched` leaves, and they are assembled. -/
theorem Assembled.exists_answers_takeAll (hasm : Assembled b h tokens)
    (hr : sys.registry.Booted) (hat : Registry.CoreAt sys.registry n m) (hb : b.add = ⟨m⟩)
    (steps : List Token) :
    ∃ b' h', (takeAll sys steps b).Answers h (.ok (matched b.depth steps, b')) h' ∧
      b'.add = ⟨m⟩ ∧ Assembled b' h' (tokens ++ matched b.depth steps) := by
  induction steps generalizing b h tokens with
  | nil =>
      refine ⟨b, h, ?_, hb, ?_⟩
      · rw [matched]
        exact Exec.answers_pure _ h
      · rw [matched, List.append_nil]
        exact hasm
  | cons step rest ih =>
      unfold takeAll
      by_cases hstep : step = .closeList ∧ b.depth = 0
      -- The step fails and leaves everything as it is.
      · obtain ⟨rfl, hdepth⟩ := hstep
        obtain ⟨b', h', hrest, hb', hasm'⟩ := ih hasm hb
        have hskip : matched b.depth (.closeList :: rest) = matched b.depth rest := by
          rw [hdepth, matched]
        rw [hskip]
        have hfail : (b.take sys .closeList).Answers h (.error (fault .closeWithoutOpen)) h :=
          fun log => ⟨log, runFrom_take_closeList hdepth _⟩
        exact ⟨b', h', hfail.attempt.bind_ok hrest, hb', hasm'⟩
      · obtain ⟨b₁, h₁, htake, hb₁, hasm₁, hmatched⟩ := hasm.exists_answers_take hr hat hb hstep
        obtain ⟨b', h', hrest, hb', hasm'⟩ := ih hasm₁ hb₁
        rw [List.append_assoc, List.singleton_append] at hasm'
        rw [hmatched]
        refine ⟨b', h', htake.attempt.bind_ok ?_, hb', hasm'⟩
        exact hrest.bind_ok (Exec.answers_pure _ h')

/-! ## Arbitrary steps from a new builder -/

theorem finish_eq (b : Builder) :
    b.finish = if b.depth = 0 then .ok b.root else .error (fault .unclosedList) := by
  unfold finish depth
  cases b.opened <;> simp

/-- In a booted system, whatever was registered in whatever order, any steps can be taken one after
the other.  Afterwards only closing a list fails, and only when no list is open; nothing changes
then.  As many lists are open as were opened and not closed, the outermost one is the last element
of the root and every other one the last element of the one around it, and no list stands at two
places.  When no list is open the root is handed out, and it stands for the forest whose tokens are
the steps without those that failed; otherwise nothing is handed out. -/
theorem steps_assemble_matched (hsys : sys.registry.Booted) (steps : List Token) (s : Store) :
    ∃ b s', (new sys >>= takeAll sys steps).runFrom s = some (.ok (matched 0 steps, b), s') ∧
      (∀ step, step = .closeList ∧ b.depth = 0 →
        (b.take sys step).runFrom s' = some (.error (fault .closeWithoutOpen), s')) ∧
      (∀ step, ¬(step = .closeList ∧ b.depth = 0) →
        ∃ b' s'', (b.take sys step).runFrom s' = some (.ok b', s'')) ∧
      b.depth + (matched 0 steps).count .closeList = steps.count .openList ∧
      ((b.opened ++ [b.root]).IsChain fun inner outer =>
        (s'.heap.elements outer).getLast? = some (.list inner)) ∧
      (∀ path path' l, s'.heap.at? (.list b.root) path = some (.list l) →
        s'.heap.at? (.list b.root) path' = some (.list l) → path = path') ∧
      (b.depth = 0 → b.finish = .ok b.root ∧
        ∃ ds, s'.heap.Unfolds (.list b.root) (.list ds) ∧ Tokens ds (matched 0 steps)) ∧
      (b.depth ≠ 0 → b.finish = .error (fault .unclosedList)) := by
  obtain ⟨n, m, hat⟩ := hsys.coreAt
  have hnew := answers_new hat s.heap
  obtain ⟨b, h', hrun, hb, hasm⟩ :=
    (assembled_new m s.heap).exists_answers_takeAll hsys hat rfl steps
  obtain ⟨log, hall⟩ := hnew.bind_ok hrun s.log
  refine ⟨b, ⟨h', log⟩, hall, ?_, ?_, ?_, hasm.spine.isChain,
    fun path path' l => hasm.unshared.eq_path, fun hdepth => ⟨?_, hasm.exists_unfolds hdepth⟩,
    fun hdepth => ?_⟩
  · rintro step ⟨rfl, hdepth⟩
    exact runFrom_take_closeList hdepth _
  · intro step hstep
    obtain ⟨b', h'', htake, -⟩ := hasm.exists_answers_take hsys hat hb hstep
    obtain ⟨log', htake⟩ := htake log
    exact ⟨b', ⟨h'', log'⟩, htake⟩
  · rw [← count_matched 0 steps (show Token.openList ≠ .closeList by decide)]
    exact hasm.depth_add_count
  · rw [finish_eq, if_pos hdepth]
  · rw [finish_eq, if_neg hdepth]

/-- The first closing parenthesis and the last but one fail. -/
theorem sampleSteps_assemble :
    let steps : List Token :=
      [.closeList, .openList, .atom "a", .openList, .closeList, .closeList, .closeList, .string "b"]
    let taken : List Token := [.openList, .atom "a", .openList, .closeList, .closeList, .string "b"]
    ObjectSystem.extendedSystem.registry.Booted ∧
      ∃ b s', (new ObjectSystem.extendedSystem >>=
          takeAll ObjectSystem.extendedSystem steps).runFrom .empty = some (.ok (taken, b), s') ∧
        b.finish = .ok b.root ∧
        ∃ ds, s'.heap.Unfolds (.list b.root) (.list ds) ∧ Tokens ds taken := by
  intro steps taken
  have hmatched : matched 0 steps = taken := by simp [steps, taken, matched]
  have hbooted := ObjectSystem.booted_extendedSystem
  obtain ⟨b, s', hrun, -, -, hcount, -, -, hfinish, -⟩ :=
    steps_assemble_matched hbooted steps .empty
  rw [hmatched] at hrun hcount hfinish
  have hdepth : b.depth = 0 := by
    have hsame : taken.count .closeList = steps.count .openList := by decide
    omega
  exact ⟨hbooted, b, s', hrun, hfinish hdepth⟩

end Builder
end LispFront
