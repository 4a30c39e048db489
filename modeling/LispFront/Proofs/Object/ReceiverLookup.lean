import LispFront.Proofs.Object.Extension

/-!
# Looking up a method by its receiver

`Registry.findMethod` looks for a method among those that are dispatched on the receiver only, and a
send of one positional argument looks among all methods.  A method that asks for two classes or more
is skipped by both, and one that asks for one class is taken by both or by neither
(`Booted.appliesTo_iff`).  So the two searches can part only at a method that asks for no class at
all: the lookup skips it, the send takes it.
-/

namespace LispFront
namespace Registry

variable {r : Registry} {generic : GenericId} {v : Value} {entry : MethodEntry} {i : Nat}

/-- Whether a method is dispatched on the receiver only and accepts a wrapper. -/
def takesReceiver (r : Registry) (wrapper : WrapperId) (entry : MethodEntry) : Bool :=
  match entry.specializers with
  | [id] => r.accepts id wrapper
  | _ => false

/-- The index of the method that the lookup by the receiver finds. -/
def foundAt (r : Registry) (v : Value) (generic : GenericId) : Option Nat :=
  (r.wrapperOf v).toOption.bind fun wrapper =>
    (r.getGeneric generic).methods.findIdx? (r.takesReceiver wrapper)

/-- The index of the method that a send of one positional argument selects. -/
def selectedAt (r : Registry) (v : Value) (generic : GenericId) : Option Nat :=
  (r.select generic 1 0 [v]).toOption.map (·.index)

/-! ## The lookup -/

/-- A method without classes, or with two or more of them, is never found. -/
theorem takesReceiver_iff {wrapper : WrapperId} : r.takesReceiver wrapper entry = true ↔
    ∃ id, entry.specializers = [id] ∧ r.accepts id wrapper = true := by
  unfold takesReceiver
  split
  · rename_i id heq
    simp [heq]
  · rename_i hother
    simp only [Bool.false_eq_true, false_iff]
    rintro ⟨id, heq, -⟩
    exact hother id heq

/-- The closure that is found is the one at the index that is found. -/
theorem Booted.findMethod_eq (hr : r.Booted) (v : Value) (generic : GenericId) :
    r.findMethod v generic = .ok ((r.foundAt v generic).bind fun i =>
      ((r.getGeneric generic).methods[i]?).map (·.closure)) := by
  obtain ⟨core, hcore⟩ := hr.core
  have hfound : r.foundAt v generic =
      (r.getGeneric generic).methods.findIdx? (r.takesReceiver (r.wrapperIn core v)) := by
    unfold foundAt
    rw [wrapperOf_eq hcore]
    rfl
  have hfind : r.findMethod v generic = .ok (((r.getGeneric generic).methods.find?
      (r.takesReceiver (r.wrapperIn core v))).map (·.closure)) := by
    unfold findMethod
    rw [wrapperOf_eq hcore]
    rfl
  rw [hfind, hfound, List.find?_eq_bind_findIdx?_getElem?, Option.map_bind]
  rfl

/-! ## Applying to one argument -/

/-- What applies to one argument: a method without classes, and a method that the lookup takes. -/
theorem Booted.appliesTo_iff (hr : r.Booted) {core : Core} (hcore : r.core = some core)
    (hentry : entry ∈ (r.getGeneric generic).methods) :
    r.AppliesTo entry [v] ↔
      entry.specializers = [] ∨ r.takesReceiver (r.wrapperIn core v) entry = true := by
  have hspecs := hr.consistent.specializers generic entry hentry
  rw [← hr.consistent.applies_iff hr.classes_pos hcore hspecs, takesReceiver_iff]
  unfold applies
  match entry.specializers with
  | [] => simp
  | [id] => simp
  | first :: second :: others => simp

/-- The lookup finds the first method that applies, unless that method has no classes. -/
theorem Booted.foundAt_eq_some_iff (hr : r.Booted)
    (hfirst : r.FirstApplicable generic [v] i entry) :
    r.foundAt v generic = some i ↔ entry.specializers ≠ [] := by
  obtain ⟨core, hcore⟩ := hr.core
  obtain ⟨hi, hget⟩ := List.getElem?_eq_some_iff.mp hfirst.found
  have happlies := (hr.appliesTo_iff hcore (List.mem_of_getElem? hfirst.found)).mp hfirst.applies
  unfold foundAt
  rw [wrapperOf_eq hcore]
  show (r.getGeneric generic).methods.findIdx? (r.takesReceiver (r.wrapperIn core v)) = some i ↔ _
  rw [List.findIdx?_eq_some_iff_getElem]
  constructor
  · rintro ⟨_, htakes, _⟩
    rw [hget] at htakes
    obtain ⟨id, hid, -⟩ := takesReceiver_iff.mp htakes
    rw [hid]
    exact List.cons_ne_nil _ _
  · intro hsome
    refine ⟨hi, hget ▸ happlies.resolve_left hsome, ?_⟩
    intro j hj htakes
    have hearlier := List.getElem?_eq_getElem (hj.trans hi)
    exact hfirst.earlier j hj _ hearlier
      ((hr.appliesTo_iff hcore (List.mem_of_getElem? hearlier)).mpr (.inr htakes))

/-- The lookup finds nothing when no method applies. -/
theorem Booted.foundAt_eq_none (hr : r.Booted)
    (hnone : ∀ entry ∈ (r.getGeneric generic).methods, ¬ r.AppliesTo entry [v]) :
    r.foundAt v generic = none := by
  obtain ⟨core, hcore⟩ := hr.core
  unfold foundAt
  rw [wrapperOf_eq hcore]
  show (r.getGeneric generic).methods.findIdx? (r.takesReceiver (r.wrapperIn core v)) = none
  rw [List.findIdx?_eq_none_iff]
  intro entry hentry
  rw [Bool.eq_false_iff]
  exact fun htakes => hnone entry hentry ((hr.appliesTo_iff hcore hentry).mpr (.inr htakes))

/-- The lookup and the send part at a first method that asks for no class, and nowhere else. -/
theorem Booted.foundAt_ne_selectedAt_iff (hr : r.Booted) (v : Value) (generic : GenericId) :
    r.foundAt v generic ≠ r.selectedAt v generic ↔
      ∃ i entry, r.FirstApplicable generic [v] i entry ∧ entry.specializers = [] := by
  unfold selectedAt
  rcases r.firstApplicable_or_none generic [v] with ⟨i, entry, hfirst⟩ | hnone
  · rw [hr.select_of_firstApplicable hfirst]
    show r.foundAt v generic ≠ some i ↔ _
    rw [ne_eq, hr.foundAt_eq_some_iff hfirst, ne_eq, not_not]
    constructor
    · exact fun hempty => ⟨i, entry, hfirst, hempty⟩
    -- There is one first method only.
    · rintro ⟨i', entry', hfirst', hempty⟩
      have hsame := (hr.select_of_firstApplicable hfirst').symm.trans
        (hr.select_of_firstApplicable hfirst)
      simp only [Except.ok.injEq, Selection.mk.injEq, true_and] at hsame
      obtain rfl : entry' = entry :=
        Option.some.inj (hfirst'.found.symm.trans (hsame.1 ▸ hfirst.found))
      exact hempty
  · obtain ⟨c, -, hselect⟩ := hr.select_of_none_receiver hnone
    rw [hselect, hr.foundAt_eq_none hnone]
    refine iff_of_false (fun hne => hne rfl) ?_
    rintro ⟨i, entry, hfirst, -⟩
    exact hnone entry (List.mem_of_getElem? hfirst.found) hfirst.applies

end Registry

namespace ObjectSystem

open Registry

/-- The lookup by the receiver agrees with dispatch.

* If every method of a generic function asks for a class, then either the lookup finds the closure
  of the method that a send of the one value selects and runs, or it finds nothing and the send
  selects nothing, with an error that names the class of the value.
* Whatever methods there are, the lookup and the send take different methods, or only one of them
  takes a method, exactly when the first method that applies to the value asks for no class.  Here
  the lookup answers with the closure at the index that it found. -/
theorem findMethod_agrees_with_sendRaw {sys : ObjectSystem} (hsys : sys.registry.Booted)
    (v : Value) (generic : GenericId) :
    let r := sys.registry
    let g := r.getGeneric generic
    ((∀ entry ∈ g.methods, entry.specializers ≠ []) →
      (∃ i entry, g.methods[i]? = some entry ∧
        r.findMethod v generic = .ok (some entry.closure) ∧
        r.select generic 1 0 [v] = .ok ⟨g.name, i, entry.closure⟩ ∧
        ∀ s, sys.SendRuns generic 1 0 [v]
          (sys.methodOf entry.closure.code r entry.closure.env 1 0 [v]) s
          ⟨s.heap, s.log.push (.selected g.name i)⟩) ∨
      (r.findMethod v generic = .ok none ∧ ∃ c, r.classOf v = .ok c ∧
        r.select generic 1 0 [v] = .error (.dispatch g.name [(r.getClass c).name]) ∧
        ∀ s, (sys.sendRaw generic 1 0 [v]).runFrom s =
          some (.error (.dispatch g.name [(r.getClass c).name]), s))) ∧
    r.findMethod v generic =
      .ok ((r.foundAt v generic).bind fun i => (g.methods[i]?).map (·.closure)) ∧
    (r.foundAt v generic ≠ r.selectedAt v generic ↔
      ∃ i entry, r.FirstApplicable generic [v] i entry ∧ entry.specializers = []) := by
  intro r g
  have hfind := hsys.findMethod_eq v generic
  refine ⟨fun hclasses => ?_, hfind, hsys.foundAt_ne_selectedAt_iff v generic⟩
  rcases r.firstApplicable_or_none generic [v] with ⟨i, entry, hfirst⟩ | hnone
  · have hselect := hsys.select_of_firstApplicable hfirst
    have hsome := hclasses entry (List.mem_of_getElem? hfirst.found)
    refine .inl ⟨i, entry, hfirst.found, ?_, hselect, sendRuns_of_select hselect⟩
    rw [hfind, (hsys.foundAt_eq_some_iff hfirst).mpr hsome, Option.bind_some, hfirst.found]
    rfl
  · obtain ⟨c, hc, hselect⟩ := hsys.select_of_none_receiver hnone
    refine .inr ⟨?_, c, hc, hselect, runFrom_sendRaw_error hselect⟩
    rw [hfind, hsys.foundAt_eq_none hnone]
    rfl

/-- The points with another generic function, whose methods ask for two classes, for none and for
one. -/
def labelRegistry : Registry :=
  Registration.applyAll
    [ .makeGeneric ⟨"label"⟩,
      .addMethod ⟨7⟩ ⟨.user "pair", .string "first"⟩ [⟨13⟩, ⟨0⟩],
      .addMethod ⟨7⟩ ⟨.user "any", .string "second"⟩ [],
      .putMethod ⟨13⟩ ⟨7⟩ ⟨.user "point", .string "third"⟩ ] pointRegistry

theorem booted_labelRegistry : labelRegistry.Booted :=
  booted_pointRegistry.steps (by decide +kernel)

/-- The labels with methods that answer with an account of what they are handed. -/
def labelSystem : ObjectSystem := ⟨labelRegistry, pointSystem.library⟩

/-- A send to a point runs the second method; the lookup finds the third.  To print the point, where
every method asks for a class, the send runs what the lookup finds. -/
theorem label_of_point_parts :
    let point : Value := .object ⟨13⟩ .nil
    labelSystem.registry.Booted ∧
      labelRegistry.findMethod point ⟨7⟩ = .ok (some ⟨.user "point", .string "third"⟩) ∧
      labelRegistry.foundAt point ⟨7⟩ ≠ labelRegistry.selectedAt point ⟨7⟩ ∧
      (∀ s, (labelSystem.sendRaw ⟨7⟩ 1 0 [point]).runFrom s =
        some (.ok (.string "any second 1 0 instance"),
          ⟨s.heap, s.log.push (.selected ⟨"label"⟩ 1)⟩)) ∧
      (∀ entry ∈ (labelRegistry.getGeneric ⟨5⟩).methods, entry.specializers ≠ []) ∧
      labelRegistry.findMethod point ⟨5⟩ = .ok (some ⟨.core .printObject, .nil⟩) ∧
      ∀ s, (labelSystem.sendRaw ⟨5⟩ 1 0 [point]).runFrom s =
        some (.ok (.string "#<point>"), ⟨s.heap, s.log.push (.selected ⟨"print-object"⟩ 8)⟩) := by
  intro point
  have hbooted : labelSystem.registry.Booted := booted_labelRegistry
  have hclasses : ∀ entry ∈ (labelRegistry.getGeneric ⟨5⟩).methods, entry.specializers ≠ [] := by
    decide +kernel
  have hprinter : labelRegistry.findMethod point ⟨5⟩ = .ok (some ⟨.core .printObject, .nil⟩) := by
    decide +kernel
  have hlabel : labelSystem.registry.select ⟨7⟩ 1 0 [point] =
      .ok ⟨⟨"label"⟩, 1, ⟨.user "any", .string "second"⟩⟩ := by decide +kernel
  have haccount : account "any" (.string "second") 1 0 [point] = "any second 1 0 instance" := by
    decide +kernel
  have hprint : labelRegistry.select ⟨5⟩ 1 0 [point] =
      .ok ⟨⟨"print-object"⟩, 8, ⟨.core .printObject, .nil⟩⟩ := by decide +kernel
  have hclass : labelRegistry.classOf point = .ok ⟨13⟩ := by decide +kernel
  have hname : "#<" ++ (labelRegistry.getClass ⟨13⟩).name.name ++ ">" = "#<point>" := by
    decide +kernel
  have hbody : labelSystem.methodOf (.core .printObject) labelRegistry .nil 1 0 [point] =
      .done (.string "#<point>") := by
    rw [← hname]
    exact CoreMethod.method_printObject hclass .nil 0 []
  refine ⟨hbooted, by decide +kernel, by decide +kernel, fun s => ?_, hclasses, hprinter,
    fun s => ?_⟩
  · rw [← haccount]
    exact (sendRuns_of_select hlabel s).runFrom_done
  · rcases (findMethod_agrees_with_sendRaw hbooted point ⟨5⟩).1 hclasses with
      ⟨i, entry, -, hfound, hsame, hruns⟩ | ⟨hnone, -⟩
    · have hselected := Except.ok.inj (hsame.symm.trans hprint)
      simp only [Selection.mk.injEq] at hselected
      obtain ⟨hgeneric, rfl, hclosure⟩ := hselected
      have hrun := hruns s
      rw [hclosure, hgeneric] at hrun
      exact (hbody ▸ hrun : labelSystem.SendRuns ⟨5⟩ 1 0 [point] (.done _) s _).runFrom_done
    · cases hprinter.symm.trans hnone

end ObjectSystem
end LispFront
