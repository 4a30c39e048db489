import LispFront.Proofs.Object.Persistence
import Mathlib.Data.Nat.Find

/-!
# Later registrations and dispatch

New classes, new generic functions and new methods come after what is there.  As long as no old
class gets a new superclass, what an old class inherits from stays the same (`Conserves`), and so a
send selects the method that it selected before: new methods stand behind it.  `conserves_apply` is
the step and `conserves_applyAll` the run.  A class that is defined anew lies below its direct
superclasses, and nothing lies below it yet.
-/

namespace LispFront
namespace Registry

variable {r r' q : Registry} {op : Registration} {ops : List Registration} {generic : GenericId}
  {positional : List Value}

/-! ## Registries with the same inheritance -/

/-- The value can be there: the wrapper of an object has been given out. -/
def HasValue (r : Registry) : Value → Prop
  | .object wrapper _ => wrapper.index < r.wrappers.size
  | _ => True

instance (r : Registry) : (v : Value) → Decidable (r.HasValue v)
  | .object wrapper _ => inferInstanceAs (Decidable (wrapper.index < r.wrappers.size))
  | .nil | .symbol _ | .string _ | .number _ | .stx _ | .closure .. | .classRef _ | .genericRef _ =>
    isTrue trivial

/-- What is in the first registry is in the second, and its classes have the same direct
superclasses there. -/
structure Conserves (r r' : Registry) : Prop where
  keeps : Keeps r r'
  supers : ∀ id, r.HasClass id → r'.supers id = r.supers id

theorem Conserves.refl (r : Registry) : Conserves r r := ⟨.refl r, fun _ _ => rfl⟩

/-- Whether a registration leaves the superclasses of all classes of `old` as they are. -/
def Registration.Spares (old : Registry) : Registration → Prop
  | .addSuperclass id _ => ¬ old.HasClass id
  | _ => True

instance (old : Registry) : (op : Registration) → Decidable (op.Spares old)
  | .addSuperclass id _ => inferInstanceAs (Decidable (¬ old.HasClass id))
  | .makeClass _ | .defineClass .. | .makeGeneric _ | .addMethod .. | .putMethod .. | .bootstrap =>
    isTrue trivial

/-- A registration changes the superclasses of no class but the one that it names. -/
theorem supers_apply (hq : q.Booted) (hop : op.Admissible q) {id : ClassId} (hid : q.HasClass id)
    (hother : ∀ super, op ≠ .addSuperclass id super) : (op.apply q).supers id = q.supers id := by
  cases op with
  | makeClass name => exact congrArg Class.supers (getClass_makeClass_of_lt hid name)
  | defineClass name supers =>
      exact congrArg Class.supers (getClass_defineClass_of_lt hid name supers)
  | addSuperclass changed super =>
      have hne : id ≠ changed := fun heq => hother super (heq ▸ rfl)
      have hclass := getClass_addSuperclass hop.1 super id
      rw [if_neg hne] at hclass
      exact congrArg Class.supers hclass
  | makeGeneric name => rfl
  | addMethod generic closure specializers => rfl
  | putMethod id generic closure => rfl
  | bootstrap =>
      obtain ⟨core, hcore⟩ := hq.core
      rw [apply_bootstrap_of_core hcore]

theorem keeps_apply (hq : q.Booted) (hop : op.Admissible q) : Keeps q (op.apply q) := by
  by_cases hboot : op = .bootstrap
  · obtain ⟨core, hcore⟩ := hq.core
    rw [hboot, apply_bootstrap_of_core hcore]
    exact .refl q
  · exact (Registration.grows hop hboot).keeps

/-- One more registration that spares the old classes. -/
theorem conserves_apply (h : Conserves r q) (hq : q.Booted) (hop : op.Admissible q)
    (hspares : op.Spares r) : Conserves r (op.apply q) where
  keeps := h.keeps.trans (keeps_apply hq hop)
  supers id hid := by
    rw [supers_apply hq hop (h.keeps.hasClass hid), h.supers id hid]
    rintro super rfl
    exact hspares hid

/-- Registrations that spare the old classes, one after the other. -/
theorem conserves_applyAll (h : Conserves r q) (hq : q.Booted)
    (hops : Registration.AllAdmissible q ops) (hspares : ∀ op ∈ ops, op.Spares r) :
    Conserves r (Registration.applyAll ops q) := by
  induction ops generalizing q with
  | nil => exact h
  | cons op ops ih =>
      obtain ⟨hop, hlater⟩ := hops
      have hnext := conserves_apply h hq hop (hspares op List.mem_cons_self)
      exact ih hnext (hq.step hop) hlater fun op hmem => hspares op (List.mem_cons_of_mem _ hmem)

/-- An old class inherits from the same classes as before. -/
theorem Conserves.inherits_iff (h : Conserves r r') (hclosed : r.SupersExist) {a b : ClassId}
    (ha : r.HasClass a) : r'.Inherits a b ↔ r.Inherits a b := by
  constructor
  · intro hinherits
    induction hinherits using Relation.ReflTransGen.head_induction_on with
    | refl => exact .refl
    | @head a c hedge _ ih =>
        have hold : c ∈ r.supers a := h.supers a ha ▸ hedge
        exact .head hold (ih (hclosed a ha c hold))
  · intro hinherits
    induction hinherits with
    | refl => exact .refl
    | @tail b c hpath hedge ih =>
        have hb : r.HasClass b := Inherits.hasClass hclosed hpath ha
        have hnew : c ∈ r'.supers b := (h.supers b hb).symm ▸ hedge
        exact .tail ih hnew

/-! ## The classes of values -/

/-- The core class of a value stands among the core classes. -/
theorem exists_coreClassOf_eq (n : Nat) (v : Value) :
    ∃ i < 13, coreClassOf (coreClassesFrom n) v = ⟨n + i⟩ := by
  cases v with
  | nil => exact ⟨2, by decide, rfl⟩
  | symbol => exact ⟨3, by decide, rfl⟩
  | string => exact ⟨4, by decide, rfl⟩
  | number => exact ⟨5, by decide, rfl⟩
  | stx s =>
      cases s with
      | symbol => exact ⟨9, by decide, rfl⟩
      | string => exact ⟨10, by decide, rfl⟩
      | number => exact ⟨11, by decide, rfl⟩
      | list => exact ⟨12, by decide, rfl⟩
  | closure => exact ⟨6, by decide, rfl⟩
  | classRef => exact ⟨7, by decide, rfl⟩
  | genericRef => exact ⟨8, by decide, rfl⟩
  | object => exact ⟨0, by decide, rfl⟩

/-- The class of a value is a class of the registry. -/
theorem Booted.exists_classOf (hr : r.Booted) (v : Value) :
    ∃ c, r.HasClass c ∧ r.classOf v = .ok c := by
  obtain ⟨core, hcore⟩ := hr.core
  exact ⟨_, hr.consistent.hasClass_getWrapper hr.classes_pos _, classOf_eq hcore v⟩

theorem Booted.hasClass_of_mapM_classOf (hr : r.Booted) {classes : List ClassId}
    (h : positional.mapM r.classOf = .ok classes) : ∀ c ∈ classes, r.HasClass c := by
  obtain ⟨core, hcore⟩ := hr.core
  rw [mapM_ok (classOf_eq hcore)] at h
  cases h
  intro c hc
  obtain ⟨v, -, rfl⟩ := List.mem_map.mp hc
  exact hr.consistent.hasClass_getWrapper hr.classes_pos _

/-- A value that is no object has the wrapper of its core class. -/
theorem object_or_wrapperIn_eq (v : Value) :
    (∃ wrapper payload, v = .object wrapper payload) ∨ ∀ (r : Registry) (core : Core),
      r.wrapperIn core v = (r.getClass (coreClassOf core.classes v)).wrapper := by
  cases v with
  | object wrapper payload => exact .inl ⟨wrapper, payload, rfl⟩
  | _ => exact .inr fun _ _ => rfl

/-- A value has the wrapper that it had. -/
theorem Conserves.wrapperIn_eq (h : Conserves r r') {n m : Nat} (hat : CoreAt r n m) (v : Value) :
    r'.wrapperIn (coreFrom n m) v = r.wrapperIn (coreFrom n m) v := by
  rcases object_or_wrapperIn_eq v with ⟨wrapper, payload, rfl⟩ | hwrapper
  · rfl
  · obtain ⟨i, hi, hclass⟩ := exists_coreClassOf_eq n v
    rw [hwrapper, hwrapper, show coreClassOf (coreFrom n m).classes v = ⟨n + i⟩ from hclass]
    exact h.keeps.classWrapper _ (hat.hasClass hi)

/-- The wrapper of a value of the registry has been given out. -/
theorem CoreAt.wrapperIn_lt {n m : Nat} (hat : CoreAt r n m) (hr : r.Consistent) {v : Value}
    (hv : r.HasValue v) : (r.wrapperIn (coreFrom n m) v).index < r.wrappers.size := by
  rcases object_or_wrapperIn_eq v with ⟨wrapper, payload, rfl⟩ | hwrapper
  · exact hv
  · obtain ⟨i, hi, hclass⟩ := exists_coreClassOf_eq n v
    have hplace := hat.hasClass hi
    rw [hwrapper, show coreClassOf (coreFrom n m).classes v = ⟨n + i⟩ from hclass,
      hr.wrapper _ hplace, hr.wrappers]
    exact hplace

/-- A value has the class that it had. -/
theorem Conserves.classOf_eq (h : Conserves r r') (hr : r.Booted) (hr' : r'.Booted) {v : Value}
    (hv : r.HasValue v) : r'.classOf v = r.classOf v := by
  obtain ⟨n, m, hat⟩ := hr.coreAt
  have hplace : r.HasClass ⟨(r.wrapperIn (coreFrom n m) v).index⟩ := by
    unfold HasClass
    rw [← hr.consistent.wrappers]
    exact hat.wrapperIn_lt hr.consistent hv
  have hsame := (hr'.consistent.classOfWrapper _ (h.keeps.hasClass hplace)).trans
    (hr.consistent.classOfWrapper _ hplace).symm
  rw [Registry.classOf_eq hat.core, Registry.classOf_eq (h.keeps.core.trans hat.core),
    h.wrapperIn_eq hat]
  exact congrArg Except.ok hsame

theorem Conserves.mapM_classOf_eq (h : Conserves r r') (hr : r.Booted) (hr' : r'.Booted)
    (hvalues : ∀ v ∈ positional, r.HasValue v) :
    positional.mapM r'.classOf = positional.mapM r.classOf := by
  induction positional with
  | nil => rfl
  | cons v positional ih =>
      rw [List.mapM_cons, List.mapM_cons, h.classOf_eq hr hr' (hvalues v List.mem_cons_self),
        ih fun v hv => hvalues v (List.mem_cons_of_mem _ hv)]

/-- A method with old specializers applies to the values that it applied to. -/
theorem Conserves.appliesTo_iff (h : Conserves r r') (hr : r.Booted) (hr' : r'.Booted)
    {entry : MethodEntry} (hvalues : ∀ v ∈ positional, r.HasValue v) :
    r'.AppliesTo entry positional ↔ r.AppliesTo entry positional := by
  refine and_congr_right fun _ => forall_congr' fun j => forall_congr' fun spec =>
    forall_congr' fun v => imp_congr_right fun _ => imp_congr_right fun hv => ?_
  rw [h.classOf_eq hr hr' (hvalues v (List.mem_of_getElem? hv))]
  obtain ⟨c, hc, hclass⟩ := hr.exists_classOf v
  simp only [hclass, Except.ok.injEq, exists_eq_left']
  exact h.inherits_iff hr.consistent.supers hc

/-! ## Selection -/

/-- The method at this index is the first that applies to the positional arguments. -/
structure FirstApplicable (r : Registry) (generic : GenericId) (positional : List Value) (i : Nat)
    (entry : MethodEntry) : Prop where
  found : (r.getGeneric generic).methods[i]? = some entry
  applies : r.AppliesTo entry positional
  earlier : ∀ j < i, ∀ earlier, (r.getGeneric generic).methods[j]? = some earlier →
    ¬ r.AppliesTo earlier positional

/-- One method is the first that applies, or none applies. -/
theorem firstApplicable_or_none (r : Registry) (generic : GenericId) (positional : List Value) :
    (∃ i entry, r.FirstApplicable generic positional i entry) ∨
      ∀ entry ∈ (r.getGeneric generic).methods, ¬ r.AppliesTo entry positional := by
  classical
  by_cases hsome : ∃ (i : Nat) (entry : MethodEntry),
      (r.getGeneric generic).methods[i]? = some entry ∧ r.AppliesTo entry positional
  · obtain ⟨entry, hentry, happlies⟩ := Nat.find_spec hsome
    refine .inl ⟨Nat.find hsome, entry, hentry, happlies, fun j hj earlier hearlier happlies => ?_⟩
    exact Nat.find_min hsome hj ⟨earlier, hearlier, happlies⟩
  · refine .inr fun entry hmem happlies => hsome ?_
    obtain ⟨i, hi⟩ := List.mem_iff_getElem?.mp hmem
    exact ⟨i, entry, hi, happlies⟩

/-- What is selected is the first method that applies. -/
theorem Booted.exists_firstApplicable (hr : r.Booted) {npos nkey : UInt64} {args : List Value}
    {selection : Selection} (hselect : r.select generic npos nkey args = .ok selection) :
    ∃ entry, r.FirstApplicable generic (args.take npos.toNat) selection.index entry ∧
      selection = ⟨(r.getGeneric generic).name, selection.index, entry.closure⟩ := by
  have hlayout := checkLayout_of_select hselect
  rcases r.firstApplicable_or_none generic (args.take npos.toNat) with ⟨i, entry, hfirst⟩ | hnone
  · rw [hr.select_of_first hlayout hfirst.found hfirst.applies hfirst.earlier] at hselect
    cases hselect
    exact ⟨entry, hfirst, rfl⟩
  · obtain ⟨classes, -, herror⟩ := hr.select_of_none hlayout hnone
    rw [herror] at hselect
    cases hselect

/-- A send of one positional argument selects the first method that applies. -/
theorem Booted.select_of_firstApplicable (hr : r.Booted) {v : Value} {i : Nat}
    {entry : MethodEntry} (hfirst : r.FirstApplicable generic [v] i entry) :
    r.select generic 1 0 [v] = .ok ⟨(r.getGeneric generic).name, i, entry.closure⟩ :=
  hr.select_of_first rfl hfirst.found hfirst.applies hfirst.earlier

theorem FirstApplicable.hasGeneric {i : Nat} {entry : MethodEntry}
    (h : r.FirstApplicable generic positional i entry) : r.HasGeneric generic := by
  by_contra hout
  have hnone : r.generics[generic.index]? = none := Array.getElem?_eq_none (Nat.le_of_not_lt hout)
  have hentry := h.found
  unfold getGeneric at hentry
  rw [hnone] at hentry
  simp at hentry

/-- The first method that applied is still the first: new methods stand behind it. -/
theorem Conserves.firstApplicable (h : Conserves r r') (hr : r.Booted) (hr' : r'.Booted)
    (hvalues : ∀ v ∈ positional, r.HasValue v) {i : Nat} {entry : MethodEntry}
    (hfirst : r.FirstApplicable generic positional i entry) :
    r'.FirstApplicable generic positional i entry := by
  obtain ⟨later, hmethods⟩ := h.keeps.methods generic hfirst.hasGeneric
  have hplace : i < (r.getGeneric generic).methods.length :=
    (List.getElem?_eq_some_iff.mp hfirst.found).1
  have hsame (j : Nat) (hj : j ≤ i) :
      (r'.getGeneric generic).methods[j]? = (r.getGeneric generic).methods[j]? := by
    rw [← hmethods, List.getElem?_append_left (hj.trans_lt hplace)]
  refine ⟨(hsame i le_rfl).trans hfirst.found, ?_, fun j hj earlier hearlier happlies => ?_⟩
  · exact (h.appliesTo_iff hr hr' hvalues).mpr hfirst.applies
  · rw [hsame j hj.le] at hearlier
    exact hfirst.earlier j hj earlier hearlier ((h.appliesTo_iff hr hr' hvalues).mp happlies)

/-- A selection that succeeds stays as it is. -/
theorem Conserves.select_eq_ok (h : Conserves r r') (hr : r.Booted) (hr' : r'.Booted)
    {npos nkey : UInt64} {args : List Value} (hlayout : checkLayout npos nkey args = .ok ())
    (hvalues : ∀ v ∈ args.take npos.toNat, r.HasValue v) {selection : Selection}
    (hselect : r.select generic npos nkey args = .ok selection) :
    r'.select generic npos nkey args = .ok selection := by
  obtain ⟨entry, hfirst, hselection⟩ := hr.exists_firstApplicable hselect
  have hfirst' := h.firstApplicable hr hr' hvalues hfirst
  have hselect' := hr'.select_of_first hlayout hfirst'.found hfirst'.applies hfirst'.earlier
  rw [h.keeps.genericName generic hfirst.hasGeneric, ← hselection] at hselect'
  exact hselect'

/-- A selection that fails for want of a method fails in the same way as long as there is none. -/
theorem Conserves.select_eq_error (h : Conserves r r') (hr : r.Booted) (hr' : r'.Booted)
    {npos nkey : UInt64} {args : List Value} (hlayout : checkLayout npos nkey args = .ok ())
    (hvalues : ∀ v ∈ args.take npos.toNat, r.HasValue v) (hgeneric : r.HasGeneric generic)
    (hnone : ∀ entry ∈ (r.getGeneric generic).methods, ¬ r.AppliesTo entry (args.take npos.toNat))
    (hnone' : ∀ entry ∈ (r'.getGeneric generic).methods,
      ¬ r'.AppliesTo entry (args.take npos.toNat)) :
    r'.select generic npos nkey args = r.select generic npos nkey args := by
  obtain ⟨classes, hclasses, hselect⟩ := hr.select_of_none hlayout hnone
  obtain ⟨classes', hclasses', hselect'⟩ := hr'.select_of_none hlayout hnone'
  have hsame := h.mapM_classOf_eq hr hr' hvalues
  rw [hclasses, hclasses'] at hsame
  cases hsame
  have hplaces : ∀ c ∈ classes, r.HasClass c := hr.hasClass_of_mapM_classOf hclasses
  have hnames : classes.map (fun c => (r'.getClass c).name) =
      classes.map fun c => (r.getClass c).name :=
    List.map_congr_left fun c hc => h.keeps.className c (hplaces c hc)
  rw [hselect, hselect', h.keeps.genericName generic hgeneric, hnames]

/-! ## One more method -/

section OneMoreMethod

variable {npos nkey : UInt64} {args : List Value} (closure : Closure)
  {specializers : List ClassId}

theorem methods_addMethod (hgeneric : r.HasGeneric generic) (specializers : List ClassId) :
    ((addMethod generic closure specializers r).2.getGeneric generic).methods =
      (r.getGeneric generic).methods ++ [⟨closure, specializers⟩] := by
  rw [getGeneric_addMethod hgeneric]
  exact if_pos rfl

/-- One more method is a registration that spares all classes. -/
theorem Booted.conserves_addMethod (hr : r.Booted) (hgeneric : r.HasGeneric generic)
    (hspecializers : ∀ s ∈ specializers, r.HasClass s) :
    (addMethod generic closure specializers r).2.Booted ∧
      Conserves r (addMethod generic closure specializers r).2 := by
  have hop : (Registration.addMethod generic closure specializers).Admissible r :=
    ⟨hgeneric, hspecializers⟩
  exact ⟨hr.step hop, conserves_apply (.refl r) hr hop trivial⟩

/-- A new method is selected when it applies and no method applied before. -/
theorem Booted.select_addMethod (hr : r.Booted) (hlayout : checkLayout npos nkey args = .ok ())
    (hvalues : ∀ v ∈ args.take npos.toNat, r.HasValue v) (hgeneric : r.HasGeneric generic)
    (hspecializers : ∀ s ∈ specializers, r.HasClass s)
    (hnone : ∀ entry ∈ (r.getGeneric generic).methods, ¬ r.AppliesTo entry (args.take npos.toNat))
    (happlies : (addMethod generic closure specializers r).2.AppliesTo ⟨closure, specializers⟩
      (args.take npos.toNat)) :
    (addMethod generic closure specializers r).2.select generic npos nkey args =
      .ok ⟨(r.getGeneric generic).name, (r.getGeneric generic).methods.length, closure⟩ := by
  obtain ⟨hr', hconserves⟩ := hr.conserves_addMethod closure hgeneric hspecializers
  have hmethods := methods_addMethod closure hgeneric specializers
  have hnew : ((addMethod generic closure specializers r).2.getGeneric generic).methods[
      (r.getGeneric generic).methods.length]? = some ⟨closure, specializers⟩ := by
    rw [hmethods, List.getElem?_concat_length]
  rw [hr'.select_of_first hlayout hnew happlies fun j hj entry hentry hentryApplies => ?_]
  · rw [hconserves.keeps.genericName generic hgeneric]
  · rw [hmethods, List.getElem?_append_left hj] at hentry
    exact hnone entry (List.mem_of_getElem? hentry)
      ((hconserves.appliesTo_iff hr hr' hvalues).mp hentryApplies)

/-- A new method that does not apply changes nothing when no method applied before. -/
theorem Booted.select_addMethod_eq (hr : r.Booted) (hlayout : checkLayout npos nkey args = .ok ())
    (hvalues : ∀ v ∈ args.take npos.toNat, r.HasValue v) (hgeneric : r.HasGeneric generic)
    (hspecializers : ∀ s ∈ specializers, r.HasClass s)
    (hnone : ∀ entry ∈ (r.getGeneric generic).methods, ¬ r.AppliesTo entry (args.take npos.toNat))
    (happlies : ¬ (addMethod generic closure specializers r).2.AppliesTo ⟨closure, specializers⟩
      (args.take npos.toNat)) :
    (addMethod generic closure specializers r).2.select generic npos nkey args =
      r.select generic npos nkey args := by
  obtain ⟨hr', hconserves⟩ := hr.conserves_addMethod closure hgeneric hspecializers
  refine hconserves.select_eq_error hr hr' hlayout hvalues hgeneric hnone fun entry hentry => ?_
  have hentry' : entry ∈ (r.getGeneric generic).methods ++ [⟨closure, specializers⟩] :=
    methods_addMethod closure hgeneric specializers ▸ hentry
  rcases List.mem_append.mp hentry' with hold | hnew
  · exact fun hentryApplies =>
      hnone entry hold ((hconserves.appliesTo_iff hr hr' hvalues).mp hentryApplies)
  · rw [List.mem_singleton.mp hnew]
    exact happlies

end OneMoreMethod

/-! ## One more class -/

/-- What a new class inherits from: itself, and what its direct superclasses inherit from. -/
theorem inherits_defineClass_iff (name : Symbol) (supers : List ClassId) (b : ClassId) :
    (defineClass name supers r).2.Inherits ⟨r.classes.size⟩ b ↔
      b = ⟨r.classes.size⟩ ∨ ∃ s ∈ supers, (defineClass name supers r).2.Inherits s b := by
  have hsupers : (defineClass name supers r).2.supers ⟨r.classes.size⟩ = supers :=
    congrArg Class.supers (getClass_defineClass_self name supers r)
  unfold Inherits
  rw [Relation.ReflTransGen.cases_head_iff, eq_comm]
  unfold IsDirectSuper
  rw [hsupers]

/-- A new class is a subclass of itself and of what its direct superclasses are subclasses of;
between the old classes nothing changes, and none of them is a subclass of the new one. -/
theorem Booted.isSubclass_defineClass (hr : r.Booted) (name : Symbol) {supers : List ClassId}
    (hsupers : ∀ s ∈ supers, r.HasClass s) :
    let c := (defineClass name supers r).1
    let r' := (defineClass name supers r).2
    (∀ b, r'.isSubclass c b = true ↔ b = c ∨ ∃ s ∈ supers, r'.isSubclass s b = true) ∧
    (∀ a b, r.HasClass a → r'.isSubclass a b = r.isSubclass a b) ∧
    ∀ a, r.HasClass a → r'.isSubclass a c = false := by
  intro c r'
  have hop : (Registration.defineClass name supers).Admissible r := hsupers
  have hconserves : Conserves r r' := conserves_apply (.refl r) hr hop trivial
  have hclosed : r'.SupersExist := (hr.step hop).consistent.supers
  have hold {a : ClassId} (ha : r.HasClass a) : r'.HasClass a := hconserves.keeps.hasClass ha
  have hc : r'.HasClass c := by
    show r.classes.size < (defineClass name supers r).2.classes.size
    rw [size_classes_defineClass]
    exact Nat.lt_succ_self _
  refine ⟨fun b => ?_, fun a b ha => ?_, fun a ha => ?_⟩
  · rw [isSubclass_iff_inherits hclosed hc]
    refine (inherits_defineClass_iff name supers b).trans (or_congr_right ?_)
    refine exists_congr fun s => and_congr_right fun hs => ?_
    exact (isSubclass_iff_inherits hclosed (hold (hsupers s hs))).symm
  · rw [Bool.eq_iff_iff, isSubclass_iff_inherits hclosed (hold ha),
      isSubclass_iff_inherits hr.consistent.supers ha]
    exact hconserves.inherits_iff hr.consistent.supers ha
  -- What an old class inherits from is old.
  · rw [Bool.eq_false_iff, ne_eq, isSubclass_iff_inherits hclosed (hold ha)]
    intro hinherits
    have hpath := (hconserves.inherits_iff hr.consistent.supers ha).mp hinherits
    exact Nat.lt_irrefl _ (Inherits.hasClass hr.consistent.supers hpath ha)

end Registry

namespace ObjectSystem

open Registry

/-- Dispatch survives later registrations.

* What is selected for a send whose counts fit stays selected after any number of registrations that
  add no superclass to a class that was there, and the send runs it.
* If no method applied, then after one more method of the generic function that method is selected
  exactly when it applies; otherwise the send fails with the error that it failed with.
* A class that is defined anew is a subclass of itself and of what its direct superclasses are
  subclasses of.  Between the classes that were there nothing changes, and none of them is a
  subclass of the new one. -/
theorem later_registrations_conserve_dispatch {sys : ObjectSystem} (hsys : sys.registry.Booted) :
    let r := sys.registry
    (∀ generic npos nkey args, checkLayout npos nkey args = .ok () →
      (∀ v ∈ args.take npos.toNat, r.HasValue v) →
      let g := r.getGeneric generic
      let positional := args.take npos.toNat
      (∀ selection, r.select generic npos nkey args = .ok selection →
        ∀ ops, Registration.AllAdmissible r ops → (∀ op ∈ ops, op.Spares r) →
          ∀ sys' : ObjectSystem, sys'.registry = Registration.applyAll ops r →
            sys'.registry.select generic npos nkey args = .ok selection ∧
            ∀ s, sys'.SendRuns generic npos nkey args
              (sys'.methodOf selection.closure.code sys'.registry selection.closure.env npos nkey
                args) s
              ⟨s.heap, s.log.push (.selected selection.generic selection.index)⟩) ∧
      (r.HasGeneric generic → (∀ entry ∈ g.methods, ¬ r.AppliesTo entry positional) →
        ∀ closure specializers, (∀ s ∈ specializers, r.HasClass s) →
          let r' := (addMethod generic closure specializers r).2
          (r'.select generic npos nkey args = .ok ⟨g.name, g.methods.length, closure⟩ ↔
            r'.AppliesTo ⟨closure, specializers⟩ positional) ∧
          (¬ r'.AppliesTo ⟨closure, specializers⟩ positional → ∃ classes,
            ∀ sys' : ObjectSystem, sys'.registry = r' → ∀ s,
              (sys.sendRaw generic npos nkey args).runFrom s =
                some (.error (.dispatch g.name classes), s) ∧
              (sys'.sendRaw generic npos nkey args).runFrom s =
                some (.error (.dispatch g.name classes), s)))) ∧
    ∀ name supers, (∀ s ∈ supers, r.HasClass s) →
      let c := (defineClass name supers r).1
      let r' := (defineClass name supers r).2
      (∀ b, r'.isSubclass c b = true ↔ b = c ∨ ∃ s ∈ supers, r'.isSubclass s b = true) ∧
      (∀ a b, r.HasClass a → r'.isSubclass a b = r.isSubclass a b) ∧
      ∀ a, r.HasClass a → r'.isSubclass a c = false := by
  intro r
  refine ⟨fun generic npos nkey args hlayout hvalues => ⟨?_, ?_⟩,
    fun name supers hsupers => hsys.isSubclass_defineClass name hsupers⟩
  · intro selection hselect ops hops hspares sys' hregistry
    have hbooted : sys'.registry.Booted := hregistry ▸ hsys.steps hops
    have hconserves : Conserves r sys'.registry :=
      hregistry ▸ conserves_applyAll (.refl r) hsys hops hspares
    have hselect' := hconserves.select_eq_ok hsys hbooted hlayout hvalues hselect
    exact ⟨hselect', sendRuns_of_select hselect'⟩
  · intro hgeneric hnone closure specializers hspecializers r'
    have hnew := hsys.select_addMethod closure hlayout hvalues hgeneric hspecializers hnone
    have hsame := hsys.select_addMethod_eq closure hlayout hvalues hgeneric hspecializers hnone
    obtain ⟨classes, -, herror⟩ := hsys.select_of_none hlayout hnone
    refine ⟨⟨fun hselect => ?_, hnew⟩, fun happlies =>
      ⟨classes.map fun c => (r.getClass c).name, fun sys' hregistry s => ?_⟩⟩
    · by_contra happlies
      rw [hsame happlies, herror] at hselect
      cases hselect
    · have herror' := (hsame happlies).trans herror
      exact ⟨runFrom_sendRaw_error herror s, runFrom_sendRaw_error (hregistry ▸ herror') s⟩

/-- A point gets the method that it got, although a method for points comes later, a class below the
points inherits from itself, and there is another generic function of the name. -/
theorem point_selects_after_later_registrations :
    let args : List Value := [.object ⟨13⟩ .nil, .symbol ⟨"k"⟩, .nil]
    let later : List Registration :=
      [.defineClass ⟨"pixel"⟩ [⟨13⟩], .addSuperclass ⟨14⟩ ⟨14⟩,
        .putMethod ⟨13⟩ ⟨6⟩ ⟨.user "late", .nil⟩, .bootstrap, .makeGeneric ⟨"describe"⟩]
    let selection : Selection := ⟨⟨"describe"⟩, 1, ⟨.user "one", .string "second"⟩⟩
    pointSystem.registry.Booted ∧ checkLayout 1 1 args = .ok () ∧
      (∀ v ∈ args.take (1 : UInt64).toNat, pointRegistry.HasValue v) ∧
      pointRegistry.select ⟨6⟩ 1 1 args = .ok selection ∧
      Registration.AllAdmissible pointRegistry later ∧ (∀ op ∈ later, op.Spares pointRegistry) ∧
      (Registration.applyAll later pointRegistry).select ⟨6⟩ 1 1 args = .ok selection ∧
      (∀ s, (sendRaw ⟨Registration.applyAll later pointRegistry, pointSystem.library⟩ ⟨6⟩ 1 1
        args).runFrom s = some (.ok (.string "one second 1 1 instance k nil"),
          ⟨s.heap, s.log.push (.selected ⟨"describe"⟩ 1)⟩)) ∧
      (defineClass ⟨"pixel"⟩ [⟨13⟩] pointRegistry).2.isSubclass
        (defineClass ⟨"pixel"⟩ [⟨13⟩] pointRegistry).1 ⟨0⟩ = true := by
  intro args later selection
  have hbooted : pointSystem.registry.Booted := booted_pointRegistry
  have hlayout : checkLayout 1 1 args = .ok () := rfl
  have hvalues : ∀ v ∈ args.take (1 : UInt64).toNat, pointRegistry.HasValue v := by decide +kernel
  have hselect : pointRegistry.select ⟨6⟩ 1 1 args = .ok selection := by decide +kernel
  have hlater : Registration.AllAdmissible pointRegistry later := by decide +kernel
  have hspares : ∀ op ∈ later, op.Spares pointRegistry := by decide +kernel
  obtain ⟨hdispatch, hclasses⟩ := later_registrations_conserve_dispatch hbooted
  have hstays := (hdispatch ⟨6⟩ 1 1 args hlayout hvalues).1 selection hselect later hlater hspares
  obtain ⟨hselect', hruns⟩ := hstays ⟨_, pointSystem.library⟩ rfl
  have haccount : account "one" (.string "second") 1 1 args = "one second 1 1 instance k nil" := by
    decide +kernel
  have hpoint : ∀ s ∈ [(⟨13⟩ : ClassId)], pointRegistry.HasClass s := by decide +kernel
  obtain ⟨hnew, -⟩ := hclasses ⟨"pixel"⟩ [⟨13⟩] hpoint
  have hobject : (defineClass ⟨"pixel"⟩ [⟨13⟩] pointRegistry).2.isSubclass ⟨13⟩ ⟨0⟩ = true := by
    decide +kernel
  refine ⟨hbooted, hlayout, hvalues, hselect, hlater, hspares, hselect',
    fun s => haccount ▸ (hruns s).runFrom_done, ?_⟩
  exact (hnew ⟨0⟩).mpr (.inr ⟨⟨13⟩, List.mem_singleton_self _, hobject⟩)

end ObjectSystem
end LispFront
