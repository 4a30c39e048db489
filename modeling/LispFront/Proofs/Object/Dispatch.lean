import LispFront.Proofs.Object.History
import LispFront.Proofs.Object.Running
import Mathlib.Data.List.Basic

/-!
# Dispatch

A send runs the first method, in the order of registration, that applies to its positional
arguments.  `Registry.AppliesTo` says on classes and inheritance what it means to apply;
`Registry.applies` computes it on wrappers, with a shortcut for equal wrappers.  In a consistent
registry the two agree, so that `Registry.select` finds the least index of a method that applies,
and fails with the classes of all positional arguments when there is none.
-/

namespace LispFront
namespace Registry

variable {r : Registry}

/-! ## The classes of values -/

/-- The wrapper of a value when the core is there. -/
def wrapperIn (r : Registry) (core : Core) : Value → WrapperId
  | .object wrapper _ => wrapper
  | v => (r.getClass (coreClassOf core.classes v)).wrapper

theorem wrapperOf_eq {core : Core} (h : r.core = some core) (v : Value) :
    r.wrapperOf v = .ok (r.wrapperIn core v) := by
  unfold wrapperOf getCore
  rw [h]
  cases v <;> rfl

theorem classOf_eq {core : Core} (h : r.core = some core) (v : Value) :
    r.classOf v = .ok (r.getWrapper (r.wrapperIn core v)) := by
  unfold classOf
  rw [wrapperOf_eq h]
  rfl

theorem mapM_ok {α β : Type} {f : α → Except Error β} {g : α → β} (h : ∀ a, f a = .ok (g a))
    (as : List α) : as.mapM f = .ok (as.map g) := by
  induction as with
  | nil => rfl
  | cons a as ih =>
      rw [List.mapM_cons, h a, ih]
      rfl

/-- What stands behind a wrapper is a class, if there is any class at all. -/
theorem Consistent.hasClass_getWrapper (h : r.Consistent) (hsome : 0 < r.classes.size)
    (wrapper : WrapperId) : r.HasClass (r.getWrapper wrapper) := by
  by_cases hw : wrapper.index < r.wrappers.size
  · have hplace : r.HasClass ⟨wrapper.index⟩ := by
      unfold HasClass
      rw [← h.wrappers]
      exact hw
    have hclass := h.classOfWrapper ⟨wrapper.index⟩ hplace
    rw [show r.getWrapper wrapper = ⟨wrapper.index⟩ from hclass]
    exact hplace
  · have hnone : r.wrappers[wrapper.index]? = none :=
      Array.getElem?_eq_none (Nat.le_of_not_lt hw)
    unfold getWrapper
    rw [hnone]
    exact hsome

/-! ## Accepting -/

/-- The shortcut for equal wrappers never changes what is accepted. -/
theorem Consistent.accepts_eq_isSubclass (h : r.Consistent) {id : ClassId} (hid : r.HasClass id)
    (wrapper : WrapperId) : r.accepts id wrapper = r.isSubclass (r.getWrapper wrapper) id := by
  unfold accepts
  by_cases hsame : (r.getClass id).wrapper = wrapper
  · have hclass : r.getWrapper wrapper = id := by
      rw [← hsame, h.wrapper id hid]
      exact h.classOfWrapper id hid
    have hrefl : r.isSubclass id id = true :=
      (isSubclass_iff_inherits h.supers hid).mpr .refl
    rw [hclass, hrefl, Bool.or_true]
  · have hne : ((r.getClass id).wrapper == wrapper) = false := by simpa using hsame
    rw [hne, Bool.false_or]

/-- A class accepts the objects behind a wrapper when their class inherits from it. -/
theorem Consistent.accepts_iff (h : r.Consistent) (hsome : 0 < r.classes.size) {id : ClassId}
    (hid : r.HasClass id) (wrapper : WrapperId) :
    r.accepts id wrapper = true ↔ r.Inherits (r.getWrapper wrapper) id := by
  rw [h.accepts_eq_isSubclass hid]
  exact isSubclass_iff_inherits h.supers (h.hasClass_getWrapper hsome wrapper)

/-! ## Applying -/

/-- A method applies to positional arguments when it asks for no more of them than there are and
the class of each argument that it asks for inherits from the class it asks for. -/
def AppliesTo (r : Registry) (entry : MethodEntry) (positional : List Value) : Prop :=
  entry.specializers.length ≤ positional.length ∧
    ∀ (j : Nat) spec v, entry.specializers[j]? = some spec → positional[j]? = some v →
      ∃ c, r.classOf v = .ok c ∧ r.Inherits c spec

/-- A method that asks for the class of the receiver only. -/
theorem appliesTo_receiver {closure : Closure} {spec : ClassId} {receiver : Value}
    {others : List Value} :
    r.AppliesTo ⟨closure, [spec]⟩ (receiver :: others) ↔
      ∃ c, r.classOf receiver = .ok c ∧ r.Inherits c spec := by
  constructor
  · rintro ⟨-, hall⟩
    exact hall 0 spec receiver rfl rfl
  · refine fun hreceiver => ⟨Nat.succ_le_succ (Nat.zero_le _), fun j spec' v hspec hv => ?_⟩
    cases j with
    | zero =>
        obtain rfl : spec = spec' := Option.some.inj hspec
        obtain rfl : receiver = v := Option.some.inj hv
        exact hreceiver
    | succ j => simp at hspec

theorem all_zip_eq_true_iff {α β : Type} (p : α × β → Bool) (as : List α) (bs : List β) :
    (as.zip bs).all p = true ↔
      ∀ (j : Nat) a b, as[j]? = some a → bs[j]? = some b → p (a, b) = true := by
  rw [List.all_eq_true]
  constructor
  · intro h j a b ha hb
    exact h (a, b) (List.mem_of_getElem? (List.getElem?_zip_eq_some.mpr ⟨ha, hb⟩))
  · rintro h ⟨a, b⟩ hmem
    obtain ⟨j, hj⟩ := List.mem_iff_getElem?.mp hmem
    obtain ⟨ha, hb⟩ := List.getElem?_zip_eq_some.mp hj
    exact h j a b ha hb

/-- The computed test is the test on classes. -/
theorem Consistent.applies_iff (h : r.Consistent) (hsome : 0 < r.classes.size) {core : Core}
    (hcore : r.core = some core) {entry : MethodEntry}
    (hspecs : ∀ s ∈ entry.specializers, r.HasClass s) (positional : List Value) :
    r.applies (positional.map (r.wrapperIn core)) entry = true ↔ r.AppliesTo entry positional := by
  unfold applies AppliesTo
  rw [Bool.and_eq_true, decide_eq_true_eq, List.length_map, all_zip_eq_true_iff]
  refine and_congr_right fun _ => ?_
  constructor
  · intro hall j spec v hspec hv
    have hwrapper : (positional.map (r.wrapperIn core))[j]? = some (r.wrapperIn core v) := by
      rw [List.getElem?_map, hv]
      rfl
    refine ⟨_, classOf_eq hcore v, ?_⟩
    exact (h.accepts_iff hsome (hspecs spec (List.mem_of_getElem? hspec)) _).mp
      (hall j spec _ hspec hwrapper)
  · intro hall j spec wrapper hspec hwrapper
    rw [List.getElem?_map] at hwrapper
    obtain ⟨v, hv, rfl⟩ := Option.map_eq_some_iff.mp hwrapper
    obtain ⟨c, hc, hinherits⟩ := hall j spec v hspec hv
    rw [classOf_eq hcore v] at hc
    cases hc
    exact (h.accepts_iff hsome (hspecs spec (List.mem_of_getElem? hspec)) _).mpr hinherits

/-! ## Selecting -/

/-- Counts that announce the exact length of the arguments pass the check. -/
theorem checkLayout_ok {npos nkey : UInt64} {args : List Value}
    (hlayout : args.length = npos.toNat + 2 * nkey.toNat) (hfits : args.length < UInt64.size) :
    checkLayout npos nkey args = .ok () := by
  rw [checkLayout_eq_ok_iff, ← hlayout]
  exact ⟨rfl, hfits⟩

/-- The search through the methods stops at the least index that passes the test. -/
theorem find?_zipIdx_eq_some {α : Type} {p : α → Bool} {as : List α} {i : Nat} {a : α}
    (ha : as[i]? = some a) (hp : p a = true)
    (hearlier : ∀ j < i, ∀ b, as[j]? = some b → p b = false) :
    (as.zipIdx.find? fun (b, _) => p b) = some (a, i) := by
  obtain ⟨hi, rfl⟩ := List.getElem?_eq_some_iff.mp ha
  rw [List.find?_eq_some_iff_getElem]
  refine ⟨hp, i, by simpa using hi, by simp, ?_⟩
  intro j hj
  have hb : as[j]? = some as[j] := List.getElem?_eq_getElem (hj.trans hi)
  simpa using hearlier j hj _ hb

theorem find?_zipIdx_eq_none {α : Type} {p : α → Bool} {as : List α}
    (h : ∀ a ∈ as, p a = false) : (as.zipIdx.find? fun (b, _) => p b) = none := by
  rw [List.find?_eq_none]
  rintro ⟨a, i⟩ hmem
  have ha : a ∈ as := List.fst_mem_of_mem_zipIdx hmem
  simp [h a ha]

/-- The classes of positional arguments, when the core is there. -/
def classesIn (r : Registry) (core : Core) (positional : List Value) : List ClassId :=
  positional.map fun v => r.getWrapper (r.wrapperIn core v)

/-- What is selected, once the counts have passed their check. -/
theorem select_eq {core : Core} (hcore : r.core = some core) (generic : GenericId)
    {npos nkey : UInt64} {args : List Value} (hlayout : checkLayout npos nkey args = .ok ()) :
    r.select generic npos nkey args =
      match (r.getGeneric generic).methods.zipIdx.find? fun (entry, _) =>
        r.applies ((args.take npos.toNat).map (r.wrapperIn core)) entry with
      | some (entry, index) => .ok ⟨(r.getGeneric generic).name, index, entry.closure⟩
      | none => .error (.dispatch (r.getGeneric generic).name
          ((r.classesIn core (args.take npos.toNat)).map fun c => (r.getClass c).name)) := by
  have hmatch (found : Option (MethodEntry × Nat)) :
      (match found with
        | some (entry, index) => pure ⟨(r.getGeneric generic).name, index, entry.closure⟩
        | none => throw (.dispatch (r.getGeneric generic).name
            (((args.take npos.toNat).map (r.wrapperIn core)).map r.wrapperName)) :
          Except Error Selection) =
      match found with
      | some (entry, index) => .ok ⟨(r.getGeneric generic).name, index, entry.closure⟩
      | none => .error (.dispatch (r.getGeneric generic).name
          ((r.classesIn core (args.take npos.toNat)).map fun c => (r.getClass c).name)) := by
    cases found with
    | some found => rfl
    | none =>
        unfold classesIn
        rw [List.map_map, List.map_map]
        rfl
  unfold select
  rw [hlayout, mapM_ok (wrapperOf_eq hcore)]
  -- The match in `select` is the one in the statement, with `pure` and `throw` for its results.
  exact hmatch _

/-- Counts that fail their check fail the selection. -/
theorem select_of_checkLayout_error {generic : GenericId} {npos nkey : UInt64}
    {args : List Value} {e : Error} (hlayout : checkLayout npos nkey args = .error e) :
    r.select generic npos nkey args = .error e := by
  unfold select
  rw [hlayout]
  rfl

/-- What is selected has passed the check of its counts. -/
theorem checkLayout_of_select {generic : GenericId} {npos nkey : UInt64} {args : List Value}
    {selection : Selection} (hselect : r.select generic npos nkey args = .ok selection) :
    checkLayout npos nkey args = .ok () := by
  cases hlayout : checkLayout npos nkey args with
  | ok _ => rfl
  | error e =>
      rw [select_of_checkLayout_error hlayout] at hselect
      cases hselect

/-- A booted registry has classes. -/
theorem Booted.classes_pos (h : r.Booted) : 0 < r.classes.size := by
  obtain ⟨n, m, hat⟩ := h.coreAt
  have hobject : r.HasClass ⟨n + 0⟩ := (hat.classes 0 _ _ rfl).1
  exact Nat.lt_of_le_of_lt (Nat.zero_le _) hobject

/-- The selection is the method with the least index that applies. -/
theorem Booted.select_of_first (h : r.Booted) {generic : GenericId} {npos nkey : UInt64}
    {args : List Value} (hlayout : checkLayout npos nkey args = .ok ()) {i : Nat}
    {entry : MethodEntry} (hentry : (r.getGeneric generic).methods[i]? = some entry)
    (happlies : r.AppliesTo entry (args.take npos.toNat))
    (hearlier : ∀ j < i, ∀ earlier, (r.getGeneric generic).methods[j]? = some earlier →
      ¬ r.AppliesTo earlier (args.take npos.toNat)) :
    r.select generic npos nkey args =
      .ok ⟨(r.getGeneric generic).name, i, entry.closure⟩ := by
  obtain ⟨core, hcore⟩ := h.core
  have hiff (e : MethodEntry) (he : e ∈ (r.getGeneric generic).methods) :=
    h.consistent.applies_iff h.classes_pos hcore (h.consistent.specializers generic e he)
      (args.take npos.toNat)
  have hfound := find?_zipIdx_eq_some hentry
    ((hiff entry (List.mem_of_getElem? hentry)).mpr happlies) fun j hj e he => by
      rw [Bool.eq_false_iff, ne_eq, hiff e (List.mem_of_getElem? he)]
      exact hearlier j hj e he
  rw [select_eq hcore generic hlayout, hfound]

/-- Nothing is selected when no method applies. -/
theorem Booted.select_of_none (h : r.Booted) {generic : GenericId} {npos nkey : UInt64}
    {args : List Value} (hlayout : checkLayout npos nkey args = .ok ())
    (hnone : ∀ entry ∈ (r.getGeneric generic).methods,
      ¬ r.AppliesTo entry (args.take npos.toNat)) :
    ∃ classes, (args.take npos.toNat).mapM r.classOf = .ok classes ∧
      r.select generic npos nkey args =
        .error (.dispatch (r.getGeneric generic).name
          (classes.map fun c => (r.getClass c).name)) := by
  obtain ⟨core, hcore⟩ := h.core
  refine ⟨r.classesIn core (args.take npos.toNat), mapM_ok (classOf_eq hcore) _, ?_⟩
  have hfound := find?_zipIdx_eq_none fun e he => by
    rw [Bool.eq_false_iff, ne_eq, h.consistent.applies_iff h.classes_pos hcore
      (h.consistent.specializers generic e he) (args.take npos.toNat)]
    exact hnone e he
  rw [select_eq hcore generic hlayout, hfound]

/-- A send of one positional argument to which no method applies names the class of the argument. -/
theorem Booted.select_of_none_receiver (h : r.Booted) {generic : GenericId}
    {v : Value} (hnone : ∀ entry ∈ (r.getGeneric generic).methods, ¬ r.AppliesTo entry [v]) :
    ∃ c, r.classOf v = .ok c ∧ r.select generic 1 0 [v] =
      .error (.dispatch (r.getGeneric generic).name [(r.getClass c).name]) := by
  obtain ⟨core, hcore⟩ := h.core
  have hlayout : checkLayout 1 0 [v] = .ok () := rfl
  obtain ⟨classes, hclasses, hselect⟩ := h.select_of_none hlayout hnone
  have hof : classes = [r.getWrapper (r.wrapperIn core v)] :=
    Except.ok.inj (hclasses.symm.trans (mapM_ok (classOf_eq hcore) [v]))
  rw [hof] at hselect
  exact ⟨_, classOf_eq hcore v, hselect⟩

end Registry

/-! ## Sending -/

namespace ObjectSystem

/-- The bound leaves room for the request itself. -/
theorem depthBound_eq_succ (s : Store) : depthBound s = (depthBound s - 1) + 1 := by
  unfold depthBound
  omega

/-- However much deeper sends may nest, no answer changes. -/
theorem perform_extendedBy_of_le (sys : ObjectSystem) {depth depth' : Nat} (hle : depth ≤ depth')
    (r : Request) : (sys.perform depth r).ExtendedBy (sys.perform depth' r) := by
  induction hle with
  | refl => exact .refl _
  | step _ ih => exact fun s answer h => perform_extendedBy_succ sys _ r s answer (ih s answer h)

section Sends

variable {sys : ObjectSystem} {generic : GenericId} {npos nkey : UInt64} {args : List Value}
  {selection : Registry.Selection} {e : Error}

/-- A request for a send runs what is selected, one level deeper. -/
theorem runFrom_perform_send_ok (h : sys.registry.select generic npos nkey args = .ok selection)
    (depth : Nat) (s : Store) :
    (sys.perform (depth + 1) (.send generic npos nkey args)).runFrom s =
      (sys.enter (sys.perform depth) selection.closure npos nkey args).runFrom
        ⟨s.heap, s.log.push (.selected selection.generic selection.index)⟩ := by
  unfold perform
  rw [h, Exec.runFrom_bind_ok (Exec.runFrom_ofExcept _ s),
    Exec.runFrom_bind_ok (Exec.runFrom_trace _ s)]

/-- A send runs what is selected, one level deeper. -/
theorem runFrom_sendRaw_ok (h : sys.registry.select generic npos nkey args = .ok selection)
    (s : Store) :
    (sys.sendRaw generic npos nkey args).runFrom s =
      (sys.enter (sys.perform (depthBound s - 1)) selection.closure npos nkey args).runFrom
        ⟨s.heap, s.log.push (.selected selection.generic selection.index)⟩ := by
  unfold sendRaw
  rw [Exec.runFrom_bind_ok (Exec.runFrom_get s), depthBound_eq_succ s,
    runFrom_perform_send_ok h, ← depthBound_eq_succ s]

/-- A send from the store `s` is the run of a method body from the store `s'`.  This holds for any
depth of the send; the requests of the body nest one level less deep.  `sendRaw` allows some depth,
and what it answers the body answers at every depth from there on. -/
structure SendRuns (sys : ObjectSystem) (generic : GenericId) (npos nkey : UInt64)
    (args : List Value) (body : Body Value) (s s' : Store) : Prop where
  atDepth : ∀ depth, (sys.perform (depth + 1) (.send generic npos nkey args)).runFrom s =
    (body.run (sys.perform depth)).runFrom s'
  sendRaw : ∃ bound,
    (sys.sendRaw generic npos nkey args).runFrom s =
      (body.run (sys.perform bound)).runFrom s' ∧
    ∀ depth ≥ bound, ∀ answer, (sys.sendRaw generic npos nkey args).runFrom s = some answer →
      (body.run (sys.perform depth)).runFrom s' = some answer

/-- A send runs the method of the closure that is selected, on the registry, the environment of the
closure, the counts and the arguments, after it has recorded the selection. -/
theorem sendRuns_of_select (h : sys.registry.select generic npos nkey args = .ok selection)
    (s : Store) :
    sys.SendRuns generic npos nkey args
      (sys.methodOf selection.closure.code sys.registry selection.closure.env npos nkey args) s
      ⟨s.heap, s.log.push (.selected selection.generic selection.index)⟩ where
  atDepth depth := runFrom_perform_send_ok h depth s
  sendRaw := by
    refine ⟨depthBound s - 1, runFrom_sendRaw_ok h s, fun depth hdepth answer hanswer => ?_⟩
    rw [runFrom_sendRaw_ok h] at hanswer
    exact Body.run_extendedBy (perform_extendedBy_of_le sys hdepth) _ _ _ hanswer

/-- A send of a body that makes no requests answers what the body does. -/
theorem SendRuns.runFrom_done {s s' : Store} {v : Value}
    (h : sys.SendRuns generic npos nkey args (.done v) s s') :
    (sys.sendRaw generic npos nkey args).runFrom s = some (.ok v, s') := by
  obtain ⟨bound, hrun, -⟩ := h.sendRaw
  exact hrun

/-- A send whose selection fails runs nothing. -/
theorem runFrom_sendRaw_error (h : sys.registry.select generic npos nkey args = .error e)
    (s : Store) : (sys.sendRaw generic npos nkey args).runFrom s = some (.error e, s) := by
  unfold sendRaw
  rw [Exec.runFrom_bind_ok (Exec.runFrom_get s), depthBound_eq_succ s]
  unfold perform
  rw [h, Exec.runFrom_bind_error (Exec.runFrom_ofExcept _ s)]

end Sends

/-- A send runs the method with the least index that applies to its positional arguments, on the
registry, the environment of the closure, and the counts and the arguments as they are; when none
applies it runs nothing and fails with the name of the generic function and the names of the classes
of all positional arguments.  Neither the shortcut for equal wrappers nor the keyword part of the
arguments takes part in this. -/
theorem sendRaw_runs_first_applicable {sys : ObjectSystem} (hsys : sys.registry.Booted)
    (generic : GenericId) {npos nkey : UInt64} {args : List Value}
    (hlayout : args.length = npos.toNat + 2 * nkey.toNat) (hfits : args.length < UInt64.size) :
    let r := sys.registry
    let g := r.getGeneric generic
    let positional := args.take npos.toNat
    (∀ i entry, g.methods[i]? = some entry → r.AppliesTo entry positional →
      (∀ j < i, ∀ earlier, g.methods[j]? = some earlier → ¬ r.AppliesTo earlier positional) →
      ∀ s, sys.SendRuns generic npos nkey args
        (sys.methodOf entry.closure.code r entry.closure.env npos nkey args) s
        ⟨s.heap, s.log.push (.selected g.name i)⟩) ∧
    ((∀ entry ∈ g.methods, ¬ r.AppliesTo entry positional) →
      ∃ classes, positional.mapM r.classOf = .ok classes ∧
        ∀ s, (sys.sendRaw generic npos nkey args).runFrom s =
          some (.error (.dispatch g.name (classes.map fun c => (r.getClass c).name)), s)) ∧
    (∀ id wrapper, r.HasClass id →
      r.accepts id wrapper = r.isSubclass (r.getWrapper wrapper) id) ∧
    (∀ nkey' args', args'.length = npos.toNat + 2 * nkey'.toNat → args'.length < UInt64.size →
      args'.take npos.toNat = positional →
      r.select generic npos nkey' args' = r.select generic npos nkey args) := by
  intro r g positional
  have hcheck : checkLayout npos nkey args = .ok () := Registry.checkLayout_ok hlayout hfits
  refine ⟨?_, ?_, ?_, ?_⟩
  · intro i entry hentry happlies hearlier s
    exact sendRuns_of_select (hsys.select_of_first hcheck hentry happlies hearlier) s
  · intro hnone
    obtain ⟨classes, hclasses, hselect⟩ := hsys.select_of_none hcheck hnone
    exact ⟨classes, hclasses, runFrom_sendRaw_error hselect⟩
  · intro id wrapper hid
    exact hsys.consistent.accepts_eq_isSubclass hid wrapper
  -- Selection looks at the arguments only through their positional part.
  · intro nkey' args' hlayout' hfits' hsame
    obtain ⟨core, hcore⟩ := hsys.core
    rw [Registry.select_eq hcore generic (Registry.checkLayout_ok hlayout' hfits'),
      Registry.select_eq hcore generic hcheck, hsame]

/-- A class of points, and a generic function whose second method is the first for one point. -/
def pointRegistry : Registry :=
  Registry.Registration.applyAll
    [ .defineClass ⟨"point"⟩ [⟨0⟩], .makeGeneric ⟨"describe"⟩,
      .addMethod ⟨6⟩ ⟨.user "pair", .string "first"⟩ [⟨13⟩, ⟨0⟩],
      .addMethod ⟨6⟩ ⟨.user "one", .string "second"⟩ [⟨0⟩],
      .addMethod ⟨6⟩ ⟨.user "any", .string "third"⟩ [] ]
    Registry.coreOnly

theorem booted_pointRegistry : pointRegistry.Booted :=
  Registry.booted_coreOnly.steps (by decide +kernel)

theorem name_describe : (pointRegistry.getGeneric ⟨6⟩).name = ⟨"describe"⟩ := by decide +kernel

/-- What a method of the points applies to can be computed from the wrappers of the values. -/
theorem pointRegistry_applies_iff {entry : MethodEntry}
    (hspecs : ∀ c ∈ entry.specializers, pointRegistry.HasClass c) (positional : List Value) :
    pointRegistry.applies
      (positional.map (pointRegistry.wrapperIn (Registry.coreFrom 0 0))) entry = true ↔
      pointRegistry.AppliesTo entry positional :=
  booted_pointRegistry.consistent.applies_iff booted_pointRegistry.classes_pos
    (by decide +kernel) hspecs positional

/-- A value in a word. -/
def wordOf : Value → String
  | .symbol s => s.name
  | .string text => text
  | v => v.kind

/-- Everything that a method is handed: its name, its environment, the counts and the arguments. -/
def account (name : String) (env : Value) (npos nkey : UInt64) (args : List Value) : String :=
  " ".intercalate (name :: wordOf env :: toString npos.toNat :: toString nkey.toNat ::
    args.map wordOf)

/-- The points with methods that answer with an account of what they are handed. -/
def pointSystem : ObjectSystem :=
  ⟨pointRegistry, fun name _ env npos nkey args =>
    .done (.string (account name env npos nkey args))⟩

/-- The first of the three methods asks for two arguments, so that one point gets the second, which
is handed its environment, both counts and all arguments. -/
theorem sendRaw_runs_second_of_three :
    let args : List Value := [.object ⟨13⟩ .nil, .symbol ⟨"k"⟩, .nil]
    pointSystem.registry.Booted ∧
      args.length = (1 : UInt64).toNat + 2 * (1 : UInt64).toNat ∧ args.length < UInt64.size ∧
      ∀ s, (pointSystem.sendRaw ⟨6⟩ 1 1 args).runFrom s =
        some (.ok (.string "one second 1 1 instance k nil"),
          ⟨s.heap, s.log.push (.selected ⟨"describe"⟩ 1)⟩) := by
  intro args
  have hbooted : pointSystem.registry.Booted := booted_pointRegistry
  have hlayout : args.length = (1 : UInt64).toNat + 2 * (1 : UInt64).toNat := rfl
  have haccount : account "one" (.string "second") 1 1 args = "one second 1 1 instance k nil" := by
    decide +kernel
  refine ⟨hbooted, hlayout, by decide, fun s => ?_⟩
  rw [← name_describe, ← haccount]
  refine SendRuns.runFrom_done ((sendRaw_runs_first_applicable hbooted ⟨6⟩ hlayout (by decide)).1 1
    ⟨⟨.user "one", .string "second"⟩, [⟨0⟩]⟩ (by decide +kernel) ?_ ?_ s)
  · exact (pointRegistry_applies_iff (by decide +kernel) _).mp (by decide +kernel)
  · intro j hj earlier hearlier
    have hzero : j = 0 := Nat.lt_one_iff.mp hj
    subst hzero
    have hfirst : (pointRegistry.getGeneric ⟨6⟩).methods[0]? =
        some ⟨⟨.user "pair", .string "first"⟩, [⟨13⟩, ⟨0⟩]⟩ := by decide +kernel
    obtain rfl : ⟨⟨.user "pair", .string "first"⟩, [⟨13⟩, ⟨0⟩]⟩ = earlier :=
      Option.some.inj (hfirst.symm.trans hearlier)
    intro hpair
    exact absurd hpair.1 (by decide)

end ObjectSystem
end LispFront
