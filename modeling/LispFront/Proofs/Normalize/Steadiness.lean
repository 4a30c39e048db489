import LispFront.Proofs.Normalize.Agreement

/-!
# Steadiness

A syntax object need not stand for a finite tree: a list may contain itself.  What the normalizer
does with it is then no longer read off a tree, but the normalizer is still steady.  It leaves every
list as it is, and whether and what it answers depends on the lists alone, not on what was recorded
before.  So one run of a normalizer says what all its runs from the same lists give.

Steadiness is kept by doing one thing after another, and the sends of a normalizer are steady
because a list is always received by a core method (`ObjectSystem.steady_send_list`).
-/

namespace LispFront

namespace Exec

variable {α β : Type}

/-- From the heap the computation never answers, whatever was recorded before. -/
def Silent (x : Exec α) (h : Heap) : Prop := ∀ log, x.runFrom ⟨h, log⟩ = none

/-- From the heap the computation gives one result and leaves the heap as it is, or it never
answers. -/
def Steady (x : Exec α) (h : Heap) : Prop := (∃ result, x.Answers h result h) ∨ x.Silent h

variable {h : Heap} {x : Exec α} {f : α → Exec β}

/-! ## What one run says -/

theorem Answers.steady {result : Except Error α} (hx : x.Answers h result h) : x.Steady h :=
  .inl ⟨result, hx⟩

/-- A steady computation that answers once always answers so, and it changes no list. -/
theorem Steady.answers {s s' : Store} (hx : x.Steady s.heap) {result : Except Error α}
    (hrun : x.runFrom s = some (result, s')) : x.Answers s.heap result s.heap := by
  rcases hx with ⟨result', hanswers⟩ | hsilent
  · obtain ⟨log, hrun'⟩ := hanswers s.log
    obtain rfl : result = result' := by
      simpa using congrArg (·.map Prod.fst) (hrun.symm.trans hrun')
    exact hanswers
  · rw [hsilent s.log] at hrun
    cases hrun

/-- A steady computation that once does not answer never does. -/
theorem Steady.silent {s : Store} (hx : x.Steady s.heap) (hrun : x.runFrom s = none) :
    x.Silent s.heap := by
  rcases hx with ⟨result, hanswers⟩ | hsilent
  · obtain ⟨log, hrun'⟩ := hanswers s.log
    rw [hrun] at hrun'
    cases hrun'
  · exact hsilent

/-! ## Steady computations -/

theorem steady_pure (a : α) (h : Heap) : (pure a : Exec α).Steady h := (answers_pure a h).steady

theorem steady_ofExcept (result : Except Error α) (h : Heap) : (ofExcept result).Steady h :=
  (answers_ofExcept result h).steady

theorem steady_throw (e : Error) (h : Heap) : (throw e : Exec α).Steady h :=
  (answers_throw e h).steady

theorem steady_trace (e : Event) (h : Heap) : (trace e).Steady h := (answers_trace e h).steady

theorem steady_never (h : Heap) : (never : Exec α).Steady h := .inr fun _ => rfl

theorem steady_ofHeap (operation : Heap → Answer α) (h : Heap) : (ofHeap operation).Steady h := by
  cases hop : operation h with
  | some result => exact (answers_ofHeap hop).steady
  | none =>
      refine .inr fun log => ?_
      simp only [ofHeap, runFrom, hop]

theorem Silent.bind (hx : x.Silent h) (f : α → Exec β) : (x >>= f).Silent h := by
  intro log
  rw [runFrom_bind, hx log]
  rfl

theorem Answers.silent_bind {a : α} (hx : x.Answers h (.ok a) h) (hf : (f a).Silent h) :
    (x >>= f).Silent h := by
  intro log
  obtain ⟨log', hrun⟩ := hx log
  rw [runFrom_bind_ok hrun, hf log']

/-- One steady computation after another. -/
theorem Steady.bind (hx : x.Steady h) (hf : ∀ a, (f a).Steady h) : (x >>= f).Steady h := by
  rcases hx with ⟨result, hanswers⟩ | hsilent
  · cases result with
    | error e => exact hanswers.bind_error.steady
    | ok a =>
        rcases hf a with ⟨result, hnext⟩ | hsilent
        · exact (hanswers.bind_ok hnext).steady
        · exact .inr (hanswers.silent_bind hsilent)
  · exact .inr (hsilent.bind f)

/-- A computation that is chosen by the heap is the one for this heap. -/
theorem steady_get_bind {g : Heap → Exec α} (hg : (g h).Steady h) :
    (do g (← get).heap : Exec α).Steady h := by
  rcases hg with ⟨result, hanswers⟩ | hsilent
  · exact (answers_get_bind fun _ => hanswers).steady
  · refine .inr fun log => ?_
    rw [runFrom_bind_ok (runFrom_get _), hsilent log]

theorem steady_mapM {f : α → Exec β} {xs : List α} (hf : ∀ x ∈ xs, (f x).Steady h) :
    (xs.mapM f).Steady h := by
  induction xs with
  | nil => exact steady_pure [] h
  | cons x xs ih =>
      rw [List.mapM_cons]
      have hrest := ih fun y hy => hf y (List.mem_cons_of_mem x hy)
      exact (hf x List.mem_cons_self).bind fun _ => hrest.bind fun _ => steady_pure _ h

end Exec

/-! ## Sends to lists -/

/-- What a body reads off the heap is steady. -/
theorem Body.steady_run_ofHeap {α : Type} (perform : Request → Exec Value)
    (operation : Heap → Answer α) (h : Heap) :
    ((Body.ofHeap operation).run perform).Steady h := by
  cases hop : operation h with
  | some result => exact (answers_run_ofHeap hop).steady
  | none =>
      refine .inr fun log => ?_
      rw [ofHeap, run, Exec.runFrom_bind_ok (Exec.runFrom_get _), hop]
      rfl

namespace ObjectSystem

open Registry

variable {sys : ObjectSystem} {n m : Nat} {h : Heap} {l : ListRef}

/-- A send of a core generic function to a list is as steady as its core method. -/
theorem steady_send_list (hr : sys.registry.Booted) (hat : CoreAt sys.registry n m) {i : Nat}
    {method : CoreMethod} (hi : listMethods[i]? = some method) {npos : UInt64}
    {positional : List Value}
    (hlayout : checkLayout npos 0 (.stx (.list l) :: positional) = .ok ())
    (hnpos : 0 < npos.toNat)
    (hbody : ∀ perform : Request → Exec Value,
      ((method.method sys.registry .nil npos 0 (.stx (.list l) :: positional)).run
        perform).Steady h) :
    (sys.sendRaw ⟨m + i⟩ npos 0 (.stx (.list l) :: positional)).Steady h := by
  have hselect := hr.select_list hat hlayout hnpos (hat.listMethod_front hi)
  -- How deep the sends of the method may nest is decided by the heap.
  rcases hbody (sys.perform (depthBound ⟨h, #[]⟩ - 1)) with ⟨result, hanswers⟩ | hsilent
  · refine .inl ⟨result, fun log => ?_⟩
    rw [runFrom_sendRaw_ok hselect]
    exact hanswers _
  · refine .inr fun log => ?_
    rw [runFrom_sendRaw_ok hselect]
    exact hsilent _

/-- Looking up an element is steady, also where its error would need the text of a list that
contains itself. -/
theorem steady_elementBody (perform : Request → Exec Value) (index : Nat) :
    ((CoreMethod.elementBody index (.stx (.list l))).run perform).Steady h := by
  unfold CoreMethod.elementBody
  rw [Body.run_then]
  refine (Body.answers_run_ofExcept _ h).steady.bind fun list => ?_
  rw [Body.run_then]
  exact (Body.steady_run_ofHeap perform _ h).bind fun x =>
    Exec.steady_pure (Value.stx x) h

theorem steady_element (hr : sys.registry.Booted) (hat : CoreAt sys.registry n m) {index : Nat}
    (hindex : index < 4) : (sys.sendRaw ⟨m + (index + 1)⟩ 1 0 [.stx (.list l)]).Steady h := by
  interval_cases index
  · exact steady_send_list hr hat (i := 1) rfl rfl (by decide) fun perform =>
      steady_elementBody perform 0
  · exact steady_send_list hr hat (i := 2) rfl rfl (by decide) fun perform =>
      steady_elementBody perform 1
  · exact steady_send_list hr hat (i := 3) rfl rfl (by decide) fun perform =>
      steady_elementBody perform 2
  · exact steady_send_list hr hat (i := 4) rfl rfl (by decide) fun perform =>
      steady_elementBody perform 3

end ObjectSystem

/-! ## The normalizer -/

namespace Normalizer

open Normalize

variable {nz : Normalizer} {h : Heap} {normalize : Syntax → Exec Ast}

private theorem Ready.steady_element (hz : nz.Ready) {index : Nat} (hindex : index < 4)
    {generic : GenericId}
    (hgeneric : ∀ m, nz.generics = Registry.coreGenericsFrom m → generic = ⟨m + (index + 1)⟩)
    (l : ListRef) : (nz.element generic l).Steady h := by
  obtain ⟨n, m, hat, hgenerics⟩ := hz.core
  have hsend := ObjectSystem.steady_element hz.booted hat hindex (l := l) (h := h)
  rw [← hgeneric m hgenerics] at hsend
  exact hsend.bind fun v => Exec.steady_ofExcept v.asSyntax h

theorem Ready.steady_first (hz : nz.Ready) (l : ListRef) : (nz.first l).Steady h := by
  refine hz.steady_element (show 0 < 4 by decide) (fun m hm => ?_) l
  rw [hm]
  rfl

theorem Ready.steady_second (hz : nz.Ready) (l : ListRef) : (nz.second l).Steady h := by
  refine hz.steady_element (show 1 < 4 by decide) (fun m hm => ?_) l
  rw [hm]
  rfl

theorem Ready.steady_third (hz : nz.Ready) (l : ListRef) : (nz.third l).Steady h := by
  refine hz.steady_element (show 2 < 4 by decide) (fun m hm => ?_) l
  rw [hm]
  rfl

theorem Ready.steady_fourth (hz : nz.Ready) (l : ListRef) : (nz.fourth l).Steady h := by
  refine hz.steady_element (show 3 < 4 by decide) (fun m hm => ?_) l
  rw [hm]
  rfl

theorem steady_checkLength (l : ListRef) (expected : Arity) : (checkLength l expected).Steady h :=
  Exec.steady_ofHeap _ h

theorem steady_asSymbol (x : Syntax) : (asSymbol x).Steady h := Exec.steady_ofHeap _ h

theorem steady_tail (l : ListRef) (start : Nat) : (tail l start).Steady h :=
  Exec.steady_ofHeap _ h

/-- What is neither of the expected kinds is refused with its description. -/
theorem steady_describe_throw {α : Type} (x : Syntax) (expected : String) :
    (do
      let found ← Exec.ofHeap fun h => h.describe x
      throw (.identity expected found) : Exec α).Steady h :=
  (Exec.steady_ofHeap _ h).bind fun _ => Exec.steady_throw _ h

theorem steady_dissectFrom (hn : ∀ x, (normalize x).Steady h) :
    (xs : List Syntax) → (args : Arguments Ast) → (dissectFrom normalize args xs).Steady h
  | [], args => Exec.steady_pure args h
  | x :: rest, args => by
      rw [dissectFrom]
      cases keywordOf? x with
      | none => exact (hn x).bind fun _ => steady_dissectFrom hn rest _
      | some key =>
          cases rest with
          | nil => exact Exec.steady_throw _ h
          | cons value rest => exact (hn value).bind fun _ => steady_dissectFrom hn rest _

theorem Ready.steady_parameter (hz : nz.Ready) (hn : ∀ x, (normalize x).Steady h) (x : Syntax) :
    (nz.parameter normalize x).Steady h := by
  cases x with
  | symbol s => exact Exec.steady_pure _ h
  | list l =>
      refine (steady_checkLength l _).bind fun _ => (hz.steady_first l).bind fun y => ?_
      refine (steady_asSymbol y).bind fun _ => (hz.steady_second l).bind fun z => ?_
      exact (hn z).bind fun _ => Exec.steady_pure _ h
  | string text => exact steady_describe_throw (.string text) _
  | number k => exact steady_describe_throw (.number k) _

theorem steady_groupParameters {parameter : Syntax → Exec (Parameter Ast)}
    (hp : ∀ x, (parameter x).Steady h) (group : Group) (xs : List Syntax) :
    (groupParameters parameter group xs).Steady h := by
  induction xs generalizing group with
  | nil => exact Exec.steady_pure [] h
  | cons x rest ih =>
      rw [groupParameters]
      cases groupOf? x with
      | some next => exact ih next
      | none => exact (hp x).bind fun _ => (ih group).bind fun _ => Exec.steady_pure _ h

theorem steady_dissectParameters {parameter : Syntax → Exec (Parameter Ast)}
    (hp : ∀ x, (parameter x).Steady h) (xs : List Syntax) :
    (dissectParameters parameter xs).Steady h :=
  (steady_groupParameters hp .required xs).bind fun _ => Exec.steady_ofExcept _ h

theorem Ready.steady_binding (hz : nz.Ready) (hn : ∀ x, (normalize x).Steady h) (l : ListRef) :
    (nz.binding normalize l).Steady h := by
  refine (steady_checkLength l _).bind fun _ => (hz.steady_second l).bind fun y => ?_
  refine (steady_asSymbol y).bind fun _ => (hz.steady_third l).bind fun z => ?_
  exact (hn z).bind fun _ => Exec.steady_pure _ h

/-- Special forms are steady: each takes its parts one after the other. -/
theorem Ready.steady_special (hz : nz.Ready) (hn : ∀ x, (normalize x).Steady h) (l : ListRef)
    (form : SpecialForm) : (nz.special normalize l form).Steady h := by
  cases form with
  | functionReference =>
      refine (steady_checkLength l _).bind fun _ => (hz.steady_second l).bind fun y => ?_
      exact (steady_asSymbol y).bind fun _ => Exec.steady_pure _ h
  | defineVariable => exact (hz.steady_binding hn l).bind fun _ => Exec.steady_pure _ h
  | defineFunction => exact (hz.steady_binding hn l).bind fun _ => Exec.steady_pure _ h
  | assignVariable => exact (hz.steady_binding hn l).bind fun _ => Exec.steady_pure _ h
  | assignFunction => exact (hz.steady_binding hn l).bind fun _ => Exec.steady_pure _ h
  | conditional =>
      refine (steady_checkLength l _).bind fun _ => (hz.steady_second l).bind fun x => ?_
      refine (hn x).bind fun _ => (hz.steady_third l).bind fun y => ?_
      refine (hn y).bind fun _ => (hz.steady_fourth l).bind fun z => ?_
      exact (hn z).bind fun _ => Exec.steady_pure _ h
  | sequence =>
      refine (steady_checkLength l _).bind fun _ => (steady_tail l 1).bind fun xs => ?_
      exact (Exec.steady_mapM fun x _ => hn x).bind fun _ => Exec.steady_pure _ h
  | call =>
      refine (steady_checkLength l _).bind fun _ => (hz.steady_second l).bind fun x => ?_
      refine (hn x).bind fun _ => (steady_tail l 2).bind fun xs => ?_
      exact (steady_dissectFrom hn xs .empty).bind fun _ => Exec.steady_pure _ h
  | abstraction =>
      refine (steady_checkLength l _).bind fun _ => (hz.steady_second l).bind fun x => ?_
      refine (Exec.steady_ofHeap _ h).bind fun list => (steady_tail list 0).bind fun xs => ?_
      refine (steady_dissectParameters (hz.steady_parameter hn) xs).bind fun _ => ?_
      exact (hz.steady_third l).bind fun y => (hn y).bind fun _ => Exec.steady_pure _ h

theorem Ready.steady_application (hz : nz.Ready) (hn : ∀ x, (normalize x).Steady h)
    (l : ListRef) : (nz.application normalize l).Steady h := by
  refine (steady_checkLength l _).bind fun _ => (hz.steady_first l).bind fun x => ?_
  refine (steady_asSymbol x).bind fun operator => (Exec.steady_trace _ h).bind fun _ => ?_
  refine (steady_tail l 1).bind fun xs => ?_
  exact (steady_dissectFrom hn xs .empty).bind fun _ => Exec.steady_pure _ h

theorem Ready.steady_list (hz : nz.Ready) (hn : ∀ x, (normalize x).Steady h) (l : ListRef) :
    (nz.normalizeList normalize l).Steady h := by
  refine (hz.steady_first l).bind fun x => (steady_asSymbol x).bind fun operator => ?_
  cases SpecialForm.ofSymbol? operator with
  | none => exact hz.steady_application hn l
  | some form =>
      exact (Exec.steady_trace _ h).bind fun _ => hz.steady_special hn l form

/-- Normalization within a depth is steady on every syntax object. -/
theorem Ready.steady_normalizeWithin (hz : nz.Ready) (h : Heap) (depth : Nat) (x : Syntax) :
    (nz.normalizeWithin depth x).Steady h := by
  induction depth generalizing x with
  | zero =>
      cases x with
      | symbol s => exact Exec.steady_pure _ h
      | list l => exact Exec.steady_never h
      | string text => exact steady_describe_throw (.string text) _
      | number k => exact steady_describe_throw (.number k) _
  | succ depth ih =>
      cases x with
      | symbol s => exact Exec.steady_pure _ h
      | list l => exact hz.steady_list ih l
      | string text => exact steady_describe_throw (.string text) _
      | number k => exact steady_describe_throw (.number k) _

/-- A ready normalizer is steady on every syntax object, also on one that contains itself. -/
theorem Ready.steady_normalize (hz : nz.Ready) (h : Heap) (x : Syntax) :
    (nz.normalize x).Steady h :=
  Exec.steady_get_bind (g := fun h => nz.normalizeWithin h.size x)
    (hz.steady_normalizeWithin h h.size x)

end Normalizer
end LispFront
