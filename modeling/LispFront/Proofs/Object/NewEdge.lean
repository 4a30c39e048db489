import LispFront.Proofs.Object.Dispatch

/-!
# One more edge between classes

What a new direct superclass changes.  A path in the graph with the edge from `c` to `s` may pass
the edge any number of times; only the way to its first passage and the way from its last one
matter, and these are paths of the old graph.  So the edge adds the pairs whose first class is a
subclass of `c` and whose second is a superclass of `s`, and it takes none away.  A send whose
positional arguments have no class below `c` selects what it selected before.
-/

namespace LispFront
namespace Registry

variable {r : Registry} {a b c s : ClassId}

/-! ## Inheritance -/

/-- The edges of the graph are the old ones and the new one. -/
theorem isDirectSuper_addSuperclass_iff (hc : r.HasClass c) :
    (addSuperclass c s r).2.IsDirectSuper a b ↔ r.IsDirectSuper a b ∨ a = c ∧ b = s := by
  unfold IsDirectSuper
  rw [show (addSuperclass c s r).2.supers a = _ from
    congrArg Class.supers (getClass_addSuperclass hc s a)]
  by_cases hsame : a = c
  · subst hsame
    simp
  · simp [hsame]

theorem hasClass_addSuperclass_iff : (addSuperclass c s r).2.HasClass a ↔ r.HasClass a := by
  unfold HasClass
  rw [size_classes_addSuperclass]

theorem supersExist_addSuperclass (hclosed : r.SupersExist) (hc : r.HasClass c)
    (hs : r.HasClass s) : (addSuperclass c s r).2.SupersExist := by
  intro id hid super hsuper
  rw [hasClass_addSuperclass_iff] at hid ⊢
  rcases (isDirectSuper_addSuperclass_iff hc).mp hsuper with hold | ⟨-, rfl⟩
  · exact hclosed id hid super hold
  · exact hs

/-- With the new edge a class inherits from what it inherited from before; and if it inherits from
the start of the edge, also from what the end of the edge inherits from. -/
theorem inherits_addSuperclass_iff (hc : r.HasClass c) :
    (addSuperclass c s r).2.Inherits a b ↔
      r.Inherits a b ∨ r.Inherits a c ∧ r.Inherits s b := by
  constructor
  · intro h
    induction h using Relation.ReflTransGen.head_induction_on with
    | refl => exact .inl .refl
    | @head a next hedge _ ih =>
        rcases (isDirectSuper_addSuperclass_iff hc).mp hedge with hold | ⟨rfl, rfl⟩
        · exact ih.imp (.head hold) fun hpassed => ⟨.head hold hpassed.1, hpassed.2⟩
        -- The path starts with the new edge, so all passages but the last can be left out.
        · rcases ih with hdirect | ⟨-, hlast⟩
          · exact .inr ⟨.refl, hdirect⟩
          · exact .inr ⟨.refl, hlast⟩
  · have hwider {x y : ClassId} (h : r.Inherits x y) : (addSuperclass c s r).2.Inherits x y :=
      Relation.ReflTransGen.mono
        (fun _ _ hold => (isDirectSuper_addSuperclass_iff hc).mpr (.inl hold)) x y h
    have hedge : (addSuperclass c s r).2.IsDirectSuper c s :=
      (isDirectSuper_addSuperclass_iff hc).mpr (.inr ⟨rfl, rfl⟩)
    rintro (hold | ⟨hfirst, hlast⟩)
    · exact hwider hold
    · exact (hwider hfirst).trans (.head hedge (hwider hlast))

theorem isSubclass_addSuperclass_iff (hclosed : r.SupersExist) (hc : r.HasClass c)
    (hs : r.HasClass s) (ha : r.HasClass a) :
    (addSuperclass c s r).2.isSubclass a b = true ↔
      r.isSubclass a b = true ∨ r.isSubclass a c = true ∧ r.isSubclass s b = true := by
  have hclosed' := supersExist_addSuperclass hclosed hc hs
  rw [isSubclass_iff_inherits hclosed' (hasClass_addSuperclass_iff.mpr ha),
    isSubclass_iff_inherits hclosed ha, isSubclass_iff_inherits hclosed ha,
    isSubclass_iff_inherits hclosed hs]
  exact inherits_addSuperclass_iff hc

/-- Nothing changes for a class that is no subclass of the start of the edge. -/
theorem isSubclass_addSuperclass_eq (hclosed : r.SupersExist) (hc : r.HasClass c)
    (hs : r.HasClass s) (ha : r.HasClass a) (hapart : r.isSubclass a c = false) (b : ClassId) :
    (addSuperclass c s r).2.isSubclass a b = r.isSubclass a b := by
  rw [Bool.eq_iff_iff, isSubclass_addSuperclass_iff hclosed hc hs ha, hapart]
  simp

/-! ## Selection -/

/-- A new edge leaves the wrappers of all values as they are. -/
theorem wrapperOf_addSuperclass (hc : r.HasClass c) (s : ClassId) (v : Value) :
    (addSuperclass c s r).2.wrapperOf v = r.wrapperOf v := by
  have hwrapper (id : ClassId) :
      ((addSuperclass c s r).2.getClass id).wrapper = (r.getClass id).wrapper := by
    rw [getClass_addSuperclass hc s id]
  cases v with
  | object wrapper payload => rfl
  | _ =>
      unfold wrapperOf
      simp only [hwrapper]
      rfl

theorem wrapperName_addSuperclass (hc : r.HasClass c) (s : ClassId) :
    (addSuperclass c s r).2.wrapperName = r.wrapperName := by
  funext wrapper
  show ((addSuperclass c s r).2.getClass (r.getWrapper wrapper)).name = _
  rw [getClass_addSuperclass hc s]
  rfl

/-- The wrappers of positional arguments are those of values among them. -/
theorem exists_wrapperOf_of_mapM {positional : List Value} {wrappers : List WrapperId}
    (h : positional.mapM r.wrapperOf = .ok wrappers) :
    ∀ wrapper ∈ wrappers, ∃ v ∈ positional, r.wrapperOf v = .ok wrapper := by
  intro wrapper hwrapper
  cases hcore : r.core with
  | some core =>
      rw [mapM_ok (wrapperOf_eq hcore)] at h
      cases h
      obtain ⟨v, hv, rfl⟩ := List.mem_map.mp hwrapper
      exact ⟨v, hv, wrapperOf_eq hcore v⟩
  -- Without the core no value has a wrapper, so there are no positional arguments.
  | none =>
      cases positional with
      | nil =>
          cases h
          cases hwrapper
      | cons v rest =>
          have hnone : r.wrapperOf v = .error .notBootstrapped := by
            unfold wrapperOf getCore
            rw [hcore]
            rfl
          rw [List.mapM_cons, hnone] at h
          cases h

/-- A method applies to wrappers of classes apart from the edge as it did before. -/
theorem applies_addSuperclass (hr : r.Consistent) (hc : r.HasClass c) (hs : r.HasClass s)
    {wrappers : List WrapperId}
    (hapart : ∀ wrapper ∈ wrappers, r.isSubclass (r.getWrapper wrapper) c = false) :
    (addSuperclass c s r).2.applies wrappers = r.applies wrappers := by
  have hsome : 0 < r.classes.size := Nat.lt_of_le_of_lt (Nat.zero_le _) hc
  have haccepts (id : ClassId) (wrapper : WrapperId) (hwrapper : wrapper ∈ wrappers) :
      (addSuperclass c s r).2.accepts id wrapper = r.accepts id wrapper := by
    have hsubclass := isSubclass_addSuperclass_eq hr.supers hc hs
      (hr.hasClass_getWrapper hsome wrapper) (hapart wrapper hwrapper) id
    unfold accepts
    rw [getClass_addSuperclass hc s id]
    exact congrArg _ hsubclass
  funext entry
  unfold applies
  refine congrArg _ ?_
  rw [Bool.eq_iff_iff, List.all_eq_true, List.all_eq_true]
  refine forall_congr' fun pair => imp_congr_right fun hpair => ?_
  obtain ⟨id, wrapper⟩ := pair
  show (addSuperclass c s r).2.accepts id wrapper = true ↔ r.accepts id wrapper = true
  rw [haccepts id wrapper (List.of_mem_zip hpair).2]

/-- A send selects what it selected before, or fails as it did, if no positional argument has a
class below the start of the new edge. -/
theorem select_addSuperclass (hr : r.Consistent) (hc : r.HasClass c) (hs : r.HasClass s)
    {generic : GenericId} {npos nkey : UInt64} {args : List Value}
    (hapart : ∀ v ∈ args.take npos.toNat, ∀ k, r.classOf v = .ok k → r.isSubclass k c = false) :
    (addSuperclass c s r).2.select generic npos nkey args = r.select generic npos nkey args := by
  have hwrappers : (args.take npos.toNat).mapM (addSuperclass c s r).2.wrapperOf =
      (args.take npos.toNat).mapM r.wrapperOf := by
    rw [show (addSuperclass c s r).2.wrapperOf = r.wrapperOf from
      funext (wrapperOf_addSuperclass hc s)]
  have hgeneric : (addSuperclass c s r).2.getGeneric generic = r.getGeneric generic := rfl
  unfold select
  rw [hwrappers, hgeneric, wrapperName_addSuperclass hc s]
  cases hfound : (args.take npos.toNat).mapM r.wrapperOf with
  | error e => rfl
  | ok wrappers =>
      have happlies : (addSuperclass c s r).2.applies wrappers = r.applies wrappers := by
        refine applies_addSuperclass hr hc hs fun wrapper hwrapper => ?_
        obtain ⟨v, hv, hclass⟩ := exists_wrapperOf_of_mapM hfound wrapper hwrapper
        refine hapart v hv (r.getWrapper wrapper) ?_
        unfold classOf
        rw [hclass]
        rfl
      simp only [bind, Except.bind, happlies]

end Registry

namespace ObjectSystem

open Registry

/-- What a new edge from `c` to `s` does, whatever the graph looks like.

* A class is a subclass of another exactly if it was one before, or if it was a subclass of `c` and
  `s` was a subclass of the other; so no class ceases to be a subclass.
* A send none of whose positional arguments has a class below `c` selects the method that it
  selected before and runs it, or fails with the error that it failed with. -/
theorem new_edge_joins_subclasses {sys : ObjectSystem} (hsys : sys.registry.Reachable)
    {c s : ClassId} (hc : sys.registry.HasClass c) (hs : sys.registry.HasClass s) :
    let r := sys.registry
    let sys' : ObjectSystem := { sys with registry := (addSuperclass c s r).2 }
    let r' := sys'.registry
    (∀ a b, r.HasClass a → (r'.isSubclass a b = true ↔
      r.isSubclass a b = true ∨ r.isSubclass a c = true ∧ r.isSubclass s b = true)) ∧
    (∀ a b, r.HasClass a → r.isSubclass a b = true → r'.isSubclass a b = true) ∧
    ∀ generic npos nkey args,
      (∀ v ∈ args.take npos.toNat, ∀ k, r.classOf v = .ok k → r.isSubclass k c = false) →
      r'.select generic npos nkey args = r.select generic npos nkey args ∧
      (∀ selection, r.select generic npos nkey args = .ok selection → ∀ st,
        let c := selection.closure
        let st' : Store := ⟨st.heap, st.log.push (.selected selection.generic selection.index)⟩
        sys.SendRuns generic npos nkey args (sys.methodOf c.code r c.env npos nkey args) st st' ∧
        sys'.SendRuns generic npos nkey args (sys'.methodOf c.code r' c.env npos nkey args)
          st st') ∧
      ∀ e, r.select generic npos nkey args = .error e → ∀ st,
        (sys.sendRaw generic npos nkey args).runFrom st = some (.error e, st) ∧
        (sys'.sendRaw generic npos nkey args).runFrom st = some (.error e, st) := by
  intro r sys' r'
  have hconsistent : r.Consistent := hsys.consistent
  have hexact (a b : ClassId) (ha : r.HasClass a) : r'.isSubclass a b = true ↔
      r.isSubclass a b = true ∨ r.isSubclass a c = true ∧ r.isSubclass s b = true :=
    isSubclass_addSuperclass_iff hconsistent.supers hc hs ha
  refine ⟨hexact, fun a b ha hold => (hexact a b ha).mpr (.inl hold),
    fun generic npos nkey args hapart => ?_⟩
  have hselect : r'.select generic npos nkey args = r.select generic npos nkey args :=
    select_addSuperclass hconsistent hc hs hapart
  refine ⟨hselect, fun selection hselection st => ⟨?_, ?_⟩, fun e herror st => ⟨?_, ?_⟩⟩
  · exact sendRuns_of_select hselection st
  · exact sendRuns_of_select (hselect.trans hselection) st
  · exact runFrom_sendRaw_error herror st
  · exact runFrom_sendRaw_error (hselect.trans herror) st

/-- The points below the symbols. -/
def symbolicPoints : ObjectSystem :=
  { pointSystem with registry := (addSuperclass ⟨13⟩ ⟨3⟩ pointRegistry).2 }

/-- With an edge back from the symbols to the points there is a cycle: symbols are points, and a
string gets the method for one object that it got before. -/
theorem new_edge_closes_cycle :
    let args : List Value := [.string "s"]
    let r := symbolicPoints.registry
    let r' := (addSuperclass ⟨3⟩ ⟨13⟩ r).2
    r.Reachable ∧ r.HasClass ⟨3⟩ ∧ r.HasClass ⟨13⟩ ∧ r.isSubclass ⟨13⟩ ⟨3⟩ = true ∧
      r.isSubclass ⟨3⟩ ⟨13⟩ = false ∧ r'.isSubclass ⟨3⟩ ⟨13⟩ = true ∧
      (∀ v ∈ args.take (1 : UInt64).toNat, ∀ k, r.classOf v = .ok k →
        r.isSubclass k ⟨3⟩ = false) ∧
      r'.select ⟨6⟩ 1 0 args = .ok ⟨⟨"describe"⟩, 1, ⟨.user "one", .string "second"⟩⟩ ∧
      ∀ st, (sendRaw ⟨r', pointSystem.library⟩ ⟨6⟩ 1 0 args).runFrom st =
        some (.ok (.string "one second 1 0 s"),
          ⟨st.heap, st.log.push (.selected ⟨"describe"⟩ 1)⟩) := by
  intro args r r'
  have hreachable : r.Reachable :=
    booted_pointRegistry.reachable.step (.addSuperclass ⟨13⟩ ⟨3⟩) (by decide +kernel)
  have hc : r.HasClass ⟨3⟩ := by decide +kernel
  have hs : r.HasClass ⟨13⟩ := by decide +kernel
  have hback : r.isSubclass ⟨13⟩ ⟨3⟩ = true := by decide +kernel
  have hforth : r.isSubclass ⟨3⟩ ⟨13⟩ = false := by decide +kernel
  have hclass : r.classOf (.string "s") = .ok ⟨4⟩ := by decide +kernel
  have hstring : r.isSubclass ⟨4⟩ ⟨3⟩ = false := by decide +kernel
  have hapart : ∀ v ∈ args.take (1 : UInt64).toNat, ∀ k, r.classOf v = .ok k →
      r.isSubclass k ⟨3⟩ = false := by
    intro v hv k hk
    obtain rfl : v = .string "s" := List.mem_singleton.mp hv
    rw [hclass] at hk
    cases hk
    exact hstring
  obtain ⟨hexact, -, hsend⟩ := new_edge_joins_subclasses hreachable hc hs
  have hreflexive : r.isSubclass ⟨3⟩ ⟨3⟩ = true ∧ r.isSubclass ⟨13⟩ ⟨13⟩ = true := by
    decide +kernel
  obtain ⟨hsame, hruns, -⟩ := hsend ⟨6⟩ 1 0 args hapart
  have hselect : r.select ⟨6⟩ 1 0 args =
      .ok ⟨⟨"describe"⟩, 1, ⟨.user "one", .string "second"⟩⟩ := by decide +kernel
  have haccount : account "one" (.string "second") 1 0 args = "one second 1 0 s" := by
    decide +kernel
  exact ⟨hreachable, hc, hs, hback, hforth, (hexact ⟨3⟩ ⟨13⟩ hc).mpr (.inr hreflexive), hapart,
    hsame.trans hselect, fun st => haccount ▸ (hruns _ hselect st).2.runFrom_done⟩

end ObjectSystem
end LispFront
