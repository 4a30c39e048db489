import LispFront.Proofs.Normalize.Steadiness
import LispFront.Proofs.Object.Extension

/-!
# Effects

Lists are shared and can change while they are in use, but little changes them.  Normalization
changes none, whatever it is given and however it ends: it reaches lists through sends that a core
method receives, and what it does besides is steady.  The core method for `add` changes one list or
none: it checks its arguments first, and an addition cannot fail (`answers_addElement`).
-/

namespace LispFront

namespace Exec

variable {α : Type} {h : Heap} {x : Exec α}

/-- Whenever the computation answers, with a value or with an error, all lists are as they were. -/
def KeepsLists (x : Exec α) : Prop :=
  ∀ s result s', x.runFrom s = some (result, s') → s'.heap = s.heap

theorem keepsLists_of_steady (hx : ∀ h, x.Steady h) : x.KeepsLists := by
  intro s result s' hrun
  obtain ⟨log, hrun'⟩ := (hx s.heap).answers hrun s.log
  have hstore : s' = ⟨s.heap, log⟩ := by
    simpa using congrArg (·.map Prod.snd) (hrun.symm.trans hrun')
  rw [hstore]

/-- An attempt is as steady as what is attempted. -/
theorem Steady.attempt (hx : x.Steady h) : x.attempt.Steady h := by
  rcases hx with ⟨result, hanswers⟩ | hsilent
  · exact hanswers.attempt.steady
  · refine .inr fun log => ?_
    show (x.runFrom ⟨h, log⟩).map _ = none
    rw [hsilent log]
    rfl

end Exec

/-! ## The normalizer -/

namespace Normalizer

open Normalize

variable {nz : Normalizer} {h : Heap}

theorem Ready.steady_normalizeProgram (hz : nz.Ready) (root : ListRef) :
    (nz.normalizeProgram root).Steady h := by
  refine (steady_tail root 0).bind fun forms => (Exec.steady_trace _ h).bind fun _ => ?_
  exact Exec.steady_mapM fun form _ => hz.steady_normalize h form

theorem Ready.steady_normalizeEach (hz : nz.Ready) (root : ListRef) :
    (nz.normalizeEach root).Steady h := by
  refine (steady_tail root 0).bind fun forms => ?_
  exact Exec.steady_mapM fun form _ => (hz.steady_normalize h form).attempt

theorem Ready.steady_arguments (hz : nz.Ready) (xs : List Syntax) : (nz.arguments xs).Steady h :=
  steady_dissectFrom (hz.steady_normalize h) xs .empty

theorem Ready.steady_parameters (hz : nz.Ready) (xs : List Syntax) :
    (nz.parameters xs).Steady h :=
  steady_dissectParameters (hz.steady_parameter (hz.steady_normalize h)) xs

end Normalizer

/-! ## Adding an element -/

namespace Value

theorem eq_of_asSyntax_eq_ok {v : Value} {x : Syntax} (h : v.asSyntax = .ok x) : v = .stx x := by
  cases v with
  | stx y => exact congrArg Value.stx (Except.ok.inj h)
  | _ => cases h

theorem eq_of_asSyntaxList_eq_ok {v : Value} {l : ListRef} (h : v.asSyntaxList = .ok l) :
    v = .stx (.list l) := by
  unfold Value.asSyntaxList at h
  split at h
  · rw [Except.ok.inj h]
  · cases h

end Value

/-- What an addition does to all lists. -/
theorem Heap.elements_append (h : Heap) {l : ListRef} (hl : l.address < h.size) (x : Syntax)
    (m : ListRef) :
    (h.append l x).elements m = if m = l then h.elements l ++ [x] else h.elements m := by
  split
  · rename_i heq
    rw [heq, Heap.elements_append_self hl]
  · rename_i hne
    exact Heap.elements_append_of_ne hne h x

namespace ObjectSystem

open Registry

variable {sys : ObjectSystem} {n m : Nat} {npos nkey : UInt64} {args : List Value}
  {selection : Selection}

/-- The core method for `add` fails without an effect, or it adds its second argument at the end of
its first and returns that.  Both arguments are checked before anything is added. -/
theorem answers_addElement (hlayout : checkLayout npos nkey args = .ok ())
    (perform : Request → Exec Value) (r : Registry) (env : Value) (h : Heap) :
    (∃ e, ((CoreMethod.addElement.method r env npos nkey args).run perform).Answers h
      (.error e) h) ∨
    ∃ l x others, args = .stx (.list l) :: .stx x :: others ∧
      ((CoreMethod.addElement.method r env npos nkey args).run perform).Answers h
        (.ok (.stx (.list l))) (h.append l x) := by
  by_cases hnpos : npos = 2
  · subst hnpos
    have htwo : 2 ≤ args.length := le_length_of_checkLayout hlayout
    match args, htwo with
    | receiver :: element :: others, _ =>
        show (∃ e, ((CoreMethod.addBody receiver element).run perform).Answers h (.error e) h) ∨
          ∃ l x others', receiver :: element :: others = .stx (.list l) :: .stx x :: others' ∧
            ((CoreMethod.addBody receiver element).run perform).Answers h
              (.ok (.stx (.list l))) (h.append l x)
        unfold CoreMethod.addBody
        cases hx : element.asSyntax with
        | error e => exact .inl ⟨e, fun log => ⟨log, rfl⟩⟩
        | ok x =>
            cases hl : receiver.asSyntaxList with
            | error e => exact .inl ⟨e, fun log => ⟨log, rfl⟩⟩
            | ok l =>
                obtain rfl := Value.eq_of_asSyntax_eq_ok hx
                obtain rfl := Value.eq_of_asSyntaxList_eq_ok hl
                exact .inr ⟨l, x, others, rfl, fun log => ⟨log, rfl⟩⟩
  -- Any other count is refused before the arguments are looked at.
  · refine .inl ⟨.wrongArgumentCount 2 npos.toNat, ?_⟩
    have hcount : checkCount CoreMethod.addElement.formal npos =
        .error (.wrongArgumentCount 2 npos.toNat) := if_neg (Ne.symm hnpos)
    unfold CoreMethod.method
    rw [hcount]
    exact fun log => ⟨log, rfl⟩

/-- The first method for `add` is the core method, and it is never selected without a receiver. -/
theorem addElement_of_index_eq_zero (hr : sys.registry.Booted) (hat : CoreAt sys.registry n m)
    (hselect : sys.registry.select ⟨m⟩ npos nkey args = .ok selection)
    (hindex : selection.index = 0) :
    selection.closure = ⟨.core .addElement, .nil⟩ ∧ args ≠ [] := by
  obtain ⟨entry, hfirst, hselection⟩ := hr.exists_firstApplicable hselect
  obtain ⟨others, hmethods⟩ := hat.listMethod_front (i := 0) rfl
  have hentry : ⟨⟨.core .addElement, .nil⟩, [⟨n + 12⟩]⟩ = entry := by
    have hfound := hfirst.found
    rw [hindex, ← show _ = (sys.registry.getGeneric ⟨m⟩).methods from hmethods] at hfound
    exact Option.some.inj hfound
  subst hentry
  refine ⟨by rw [hselection], ?_⟩
  rintro rfl
  have hlength := hfirst.applies.1
  rw [List.take_nil] at hlength
  exact Nat.not_succ_le_zero 0 hlength

/-- A send of `add` that selects the core method fails without an effect, or it appends. -/
theorem sendRaw_add_appends (hselect : sys.registry.select ⟨m⟩ npos nkey args = .ok selection)
    (hcode : selection.closure.code = .core .addElement) {s : Store}
    (hlists : ∀ l : ListRef, .stx (.list l) ∈ args → l.address < s.heap.size) :
    ∃ result s', (sys.sendRaw ⟨m⟩ npos nkey args).runFrom s = some (result, s') ∧
      ((∃ e, result = .error e ∧ s'.heap = s.heap) ∨
        ∃ l x others, args = .stx (.list l) :: .stx x :: others ∧
          result = .ok (.stx (.list l)) ∧ s'.heap.size = s.heap.size ∧
          ∀ k, s'.heap.elements k =
            if k = l then s.heap.elements l ++ [x] else s.heap.elements k) := by
  have hmethod : sys.methodOf selection.closure.code = CoreMethod.addElement.method := by
    rw [hcode]
    rfl
  rw [runFrom_sendRaw_ok hselect]
  unfold enter
  rw [hmethod]
  rcases answers_addElement (checkLayout_of_select hselect)
      (sys.perform (depthBound s - 1)) sys.registry selection.closure.env s.heap with
    ⟨e, hanswers⟩ | ⟨l, x, others, rfl, hanswers⟩
  · obtain ⟨log, hrun⟩ := hanswers (s.log.push (.selected selection.generic selection.index))
    exact ⟨_, _, hrun, .inl ⟨e, rfl, rfl⟩⟩
  · obtain ⟨log, hrun⟩ := hanswers (s.log.push (.selected selection.generic selection.index))
    have hl : l.address < s.heap.size := hlists l List.mem_cons_self
    exact ⟨_, _, hrun, .inr ⟨l, x, others, rfl, rfl, Heap.size_append _ _ _,
      Heap.elements_append s.heap hl x⟩⟩

/-- Normalization changes no list, and an addition changes one list or none.

* Whatever methods are registered and whatever the lists hold, also when they contain themselves: no
  normalization of a form, of the forms of a program, of arguments or of parameters changes a list,
  be its answer a value or an error.
* The first method for `add` is the core method.  A send of `add` that selects it, or selects it
  where it was registered once more, always answers.  It answers with an error and changes no list,
  or it answers with its first argument, a list, at whose end its second argument then stands, for
  everyone who refers to the list; and no other list has changed. -/
theorem normalization_and_add_effects {sys : ObjectSystem} (hsys : sys.registry.Booted) :
    ∃ core nz, sys.registry.core = some core ∧
      (∀ s, ∃ log, (Normalizer.new sys).runFrom s = some (.ok nz, ⟨s.heap, log⟩)) ∧
      (∀ x, (nz.normalize x).KeepsLists) ∧
      (∀ root, (nz.normalizeEach root).KeepsLists) ∧
      (∀ root, (nz.normalizeProgram root).KeepsLists) ∧
      (∀ xs, (nz.arguments xs).KeepsLists) ∧
      (∀ xs, (nz.parameters xs).KeepsLists) ∧
      ∀ npos nkey args selection,
        sys.registry.select core.generics.add npos nkey args = .ok selection →
        (selection.index = 0 →
          selection.closure = ⟨.core .addElement, .nil⟩ ∧ args ≠ []) ∧
        (selection.closure.code = .core .addElement → ∀ s : Store,
          (∀ l : ListRef, .stx (.list l) ∈ args → l.address < s.heap.size) →
          ∃ result s', (sys.sendRaw core.generics.add npos nkey args).runFrom s =
              some (result, s') ∧
            ((∃ e, result = .error e ∧ s'.heap = s.heap) ∨
              ∃ l x others, args = .stx (.list l) :: .stx x :: others ∧
                result = .ok (.stx (.list l)) ∧ s'.heap.size = s.heap.size ∧
                ∀ k, s'.heap.elements k =
                  if k = l then s.heap.elements l ++ [x] else s.heap.elements k)) := by
  obtain ⟨n, m, hat⟩ := hsys.coreAt
  obtain ⟨nz, hz, hnew⟩ := Normalizer.exists_ready hsys
  refine ⟨coreFrom n m, nz, hat.core, fun s => hnew s.heap s.log, ?_, ?_, ?_, ?_, ?_, ?_⟩
  · exact fun x => Exec.keepsLists_of_steady fun h => hz.steady_normalize h x
  · exact fun root => Exec.keepsLists_of_steady fun h => hz.steady_normalizeEach root
  · exact fun root => Exec.keepsLists_of_steady fun h => hz.steady_normalizeProgram root
  · exact fun xs => Exec.keepsLists_of_steady fun h => hz.steady_arguments xs
  · exact fun xs => Exec.keepsLists_of_steady fun h => hz.steady_parameters xs
  · intro npos nkey args selection hselect
    refine ⟨addElement_of_index_eq_zero hsys hat hselect, ?_⟩
    exact fun hcode s hlists => sendRaw_add_appends hselect hcode hlists

/-- A list that is an element of another twice gets itself as its last element, although there is a
method of a user for `add` that applies to everything.  Whatever is normalized then, it stays so. -/
theorem list_added_to_itself :
    extendedSystem.registry.Booted ∧
      extendedSystem.registry.select ⟨0⟩ 2 0 [.stx (.list ⟨1⟩), .stx (.list ⟨1⟩)] =
        .ok ⟨⟨"add"⟩, 0, ⟨.core .addElement, .nil⟩⟩ ∧
      (∃ nz : Normalizer, ∀ x, (nz.normalize x).KeepsLists) ∧
      ∃ s', (extendedSystem.sendRaw ⟨0⟩ 2 0 [.stx (.list ⟨1⟩), .stx (.list ⟨1⟩)]).runFrom
          ⟨Normalizer.sharedLists, #[]⟩ = some (.ok (.stx (.list ⟨1⟩)), s') ∧
        s'.heap.elements ⟨1⟩ = [.ofSymbol ⟨"g"⟩, .list ⟨1⟩] ∧
        s'.heap.elements ⟨0⟩ = Normalizer.sharedLists.elements ⟨0⟩ := by
  have hbooted : extendedSystem.registry.Booted := booted_extendedSystem
  have hselect : extendedSystem.registry.select ⟨0⟩ 2 0 [.stx (.list ⟨1⟩), .stx (.list ⟨1⟩)] =
      .ok ⟨⟨"add"⟩, 0, ⟨.core .addElement, .nil⟩⟩ := by decide +kernel
  obtain ⟨core, nz, hcore, -, hkeeps, -, -, -, -, hadd⟩ := normalization_and_add_effects hbooted
  have hplace : extendedSystem.registry.core = some (coreFrom 0 0) := by decide +kernel
  obtain rfl : core = coreFrom 0 0 := Option.some.inj (hcore.symm.trans hplace)
  refine ⟨hbooted, hselect, ⟨nz, hkeeps⟩, ?_⟩
  obtain ⟨-, happends⟩ := hadd 2 0 _ _ hselect
  have hplaces : ∀ l : ListRef, .stx (.list l) ∈ [Value.stx (.list ⟨1⟩), .stx (.list ⟨1⟩)] →
      l.address < Normalizer.sharedLists.size := by
    intro l hl
    obtain rfl : l = ⟨1⟩ := by simpa using hl
    decide
  obtain ⟨result, s', hrun, ⟨e, rfl, -⟩ | ⟨l, x, others, hargs, rfl, -, hlists⟩⟩ :=
    happends rfl ⟨Normalizer.sharedLists, #[]⟩ hplaces
  · cases (runFrom_sendRaw_ok hselect _).symm.trans hrun
  · cases hargs
    refine ⟨s', hrun, ?_, ?_⟩
    · rw [hlists]
      rfl
    · rw [hlists]
      rfl

end ObjectSystem
end LispFront
