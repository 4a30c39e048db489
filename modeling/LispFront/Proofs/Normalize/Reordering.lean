import LispFront.Proofs.Normalize.Image
import LispFront.Proofs.Normalize.Units

/-!
# Reordering arguments

Units of a call may be moved past each other as long as the positional ones, and those of each
keyword, stay in order.  `Datum.Reordered` lets this happen at any number of calls at once, at any
depth.  What is reordered still normalizes, and to the same tree (`Datum.Reordered.normalize`).

The induction is on the height of the tree.  `SameBelow` is what it assumes of the parts; there is
one lemma for each way in which parts are put together.
-/

namespace LispFront

open Normalize

/-! ## Trees that are reordered -/

/-- The default values of two parameters are related; the parameters are otherwise alike. -/
inductive DefaultLifted (R : Datum → Datum → Prop) : Datum → Datum → Prop
  | same (d : Datum) : DefaultLifted R d d
  | defaulted {name value value' : Datum} (h : R value value') :
      DefaultLifted R (.list [name, value]) (.list [name, value'])

theorem DefaultLifted.group?_eq {R : Datum → Datum → Prop} {p p' : Datum}
    (h : DefaultLifted R p p') :
    p.group? = p'.group? := by
  cases h with
  | same => rfl
  | defaulted => rfl

namespace Datum

/-- The special form that a head stands for. -/
def form? (head : Datum) : Option SpecialForm :=
  match head.asSymbol with
  | .ok operator => SpecialForm.ofSymbol? operator
  | .error _ => none

/-- One tree is the other with the units of any number of calls moved: of applications, and of calls
after their operator, wherever an expression stands. -/
inductive Reordered : Datum → Datum → Prop
  | refl (d : Datum) : Reordered d d
  | bound {head name value value' : Datum}
      (hform : head.form? ∈ [some .defineVariable, some .defineFunction, some .assignVariable,
        some .assignFunction])
      (hvalue : Reordered value value') :
      Reordered (.list [head, name, value]) (.list [head, name, value'])
  | conditional {head test test' consequent consequent' alternative alternative' : Datum}
      (hform : head.form? = some .conditional) (htest : Reordered test test')
      (hconsequent : Reordered consequent consequent')
      (halternative : Reordered alternative alternative') :
      Reordered (.list [head, test, consequent, alternative])
        (.list [head, test', consequent', alternative'])
  | sequence {head : Datum} {ds ds' : List Datum} (hform : head.form? = some .sequence)
      (hall : List.Forall₂ Reordered ds ds') : Reordered (.list (head :: ds)) (.list (head :: ds'))
  | call {head operator operator' : Datum} {us vs ws : List ArgumentUnit}
      (hform : head.form? = some .call) (hoperator : Reordered operator operator')
      (hvalues : List.Forall₂ (ArgumentUnit.Lifted Reordered) us vs) (hmoved : Moved vs ws) :
      Reordered (.list (head :: operator :: ArgumentUnit.elementsOf us))
        (.list (head :: operator' :: ArgumentUnit.elementsOf ws))
  | application {head : Datum} {us vs ws : List ArgumentUnit} (hform : head.form? = none)
      (hvalues : List.Forall₂ (ArgumentUnit.Lifted Reordered) us vs) (hmoved : Moved vs ws) :
      Reordered (.list (head :: ArgumentUnit.elementsOf us))
        (.list (head :: ArgumentUnit.elementsOf ws))
  | abstraction {head body body' : Datum} {parameters parameters' : List Datum}
      (hform : head.form? = some .abstraction)
      (hparameters : List.Forall₂ (DefaultLifted Reordered) parameters parameters')
      (hbody : Reordered body body') :
      Reordered (.list [head, .list parameters, body]) (.list [head, .list parameters', body'])

end Datum

/-! ## Parts that are reordered -/

namespace Datum

open Ast
open ArgumentUnit (elementsOf Lifted)

theorem normalize_of_form? {head : Datum} {form : SpecialForm} (hform : head.form? = some form)
    (parts : List Datum) :
    (list (head :: parts)).normalize = normalizeForm form (head :: parts) := by
  rw [normalize]
  unfold form? at hform
  cases hhead : head.asSymbol with
  | ok operator =>
      have hoperator : SpecialForm.ofSymbol? operator = some form := by simpa [hhead] using hform
      rw [except_ok_bind, hoperator]
  | error e =>
      rw [hhead] at hform
      cases hform

theorem normalize_of_form?_eq_none {head : Datum} (hform : head.form? = none)
    (parts : List Datum) :
    (list (head :: parts)).normalize = (do
      let operator ← head.asSymbol
      return .app (.ref ⟨operator, .functions⟩) (← dissectArguments .empty parts)) := by
  rw [normalize]
  unfold form? at hform
  cases hhead : head.asSymbol with
  | ok operator =>
      have hoperator : SpecialForm.ofSymbol? operator = none := by simpa [hhead] using hform
      rw [except_ok_bind, except_ok_bind, hoperator]
  | error e => rfl

/-- A tree normalizes to what is the same as itself. -/
theorem same_of_normalize {d : Datum} {a : Ast} (h : d.normalize = .ok a) : a.Same a :=
  same_refl (normal_iff.mp (normal_of_normalize h)).2

/-- Up to a height, what is reordered normalizes to the same tree. -/
def SameBelow (height : Nat) : Prop :=
  ∀ (d d' : Datum) (a : Ast), d.height ≤ height → Reordered d d' → d.normalize = .ok a →
    ∃ a', d'.normalize = .ok a' ∧ a.Same a'

variable {height : Nat}

theorem SameBelow.normalForm (hs : SameBelow height) {d d' : Datum} (hheight : d.height ≤ height)
    (hr : Reordered d d') (h : d.normalize = .ok d.normalForm) :
    d'.normalize = .ok d'.normalForm ∧ d.normalForm.Same d'.normalForm := by
  obtain ⟨a', ha', hsame⟩ := hs d d' _ hheight hr h
  rw [normalForm_eq ha']
  exact ⟨ha', hsame⟩

theorem SameBelow.all (hs : SameBelow height) {ds ds' : List Datum} {as : List Ast}
    (hheight : heights ds ≤ height) (hall : List.Forall₂ Reordered ds ds')
    (h : normalizeAll ds = .ok as) :
    ∃ as', normalizeAll ds' = .ok as' ∧ List.Forall₂ Same as as' := by
  induction hall generalizing as with
  | nil =>
      rw [normalizeAll] at h
      cases h
      exact ⟨[], rfl, .nil⟩
  | @cons d d' ds ds' hd _ ih =>
      obtain ⟨hheight, hheights⟩ := heights_cons_le.mp hheight
      rw [normalizeAll] at h
      obtain ⟨a, ha, h⟩ := except_bind_eq_ok.mp h
      obtain ⟨as, has, h⟩ := except_bind_eq_ok.mp h
      cases h
      obtain ⟨a', ha', hsame⟩ := hs d d' a hheight hd ha
      obtain ⟨as', has', hsames⟩ := ih hheights has
      refine ⟨a' :: as', ?_, .cons hsame hsames⟩
      rw [normalizeAll, ha', has']
      rfl

/-- Arguments whose units are reordered inside and then moved are the same. -/
theorem SameBelow.arguments (hs : SameBelow height) {us vs ws : List ArgumentUnit}
    {args : Arguments Ast} (hheight : heights (elementsOf us) ≤ height)
    (hvalues : List.Forall₂ (Lifted Reordered) us vs) (hmoved : Moved vs ws)
    (h : dissectArguments .empty (elementsOf us) = .ok args) :
    ∃ args', dissectArguments .empty (elementsOf ws) = .ok args' ∧ SameArguments args args' := by
  obtain ⟨hall, rfl⟩ := dissectArguments_elementsOf_iff.mp h
  have hpairs : List.Forall₂ (fun v u : ArgumentUnit =>
      v.value.normalize = .ok v.value.normalForm ∧
        u.key? = v.key? ∧ u.value.normalForm.Same v.value.normalForm) vs us := by
    have hunits : ∀ u ∈ us,
        u.value.height ≤ height ∧ u.value.normalize = .ok u.value.normalForm :=
      fun u hu => ⟨ArgumentUnit.height_value_le hheight u hu, hall u hu⟩
    refine (((List.forall₂_and_left us vs).mpr ⟨hunits, hvalues⟩).imp fun u v huv => ?_).flip
    obtain ⟨⟨hle, hnormal⟩, hlifted⟩ := huv
    cases hlifted with
    | positional hr =>
        obtain ⟨hnormal', hsame⟩ := hs.normalForm hle hr hnormal
        exact ⟨hnormal', rfl, hsame⟩
    | keyword hr =>
        obtain ⟨hnormal', hsame⟩ := hs.normalForm hle hr hnormal
        exact ⟨hnormal', rfl, hsame⟩
  obtain ⟨hall', hsames⟩ := (List.forall₂_and_left vs us).mp hpairs
  refine ⟨_, dissectArguments_elementsOf_iff.mpr ⟨fun w hw => ?_, rfl⟩,
    sameArguments_ofEntries fun key => ?_⟩
  · exact hall' w (hmoved.perm.mem_iff.mpr hw)
  · rw [valuesOf_normalEntry, valuesOf_normalEntry, ← hmoved.order key,
      List.forall₂_map_left_iff, List.forall₂_map_right_iff]
    have hfilter := List.rel_filter (p := (·.key? = key)) (q := (·.key? = key))
      (fun v u hvu => by simp [hvu.1]) hsames
    exact (hfilter.imp fun v u hvu => hvu.2).flip

/-! ## Parameters -/

/-- The default value of a parameter is one that normalizes. -/
theorem sameParameter_of_dissectParameter {p : Datum} {q : Parameter Ast}
    (h : p.dissectParameter = .ok q) : SameParameter q q := by
  refine .refl fun a ha => ?_
  unfold dissectParameter at h
  split at h
  · cases h
    cases ha
  · obtain ⟨s, -, h⟩ := except_bind_eq_ok.mp h
    obtain ⟨b, hb, h⟩ := except_bind_eq_ok.mp h
    cases h
    obtain rfl := Option.some.inj ha
    exact same_of_normalize hb
  · cases h
  · cases h

theorem SameBelow.parameter (hs : SameBelow height) {p p' : Datum} {q : Parameter Ast}
    (hheight : p.height ≤ height) (hp : DefaultLifted Reordered p p')
    (h : p.dissectParameter = .ok q) :
    ∃ q', p'.dissectParameter = .ok q' ∧ SameParameter q q' := by
  cases hp with
  | same => exact ⟨q, h, sameParameter_of_dissectParameter h⟩
  | @defaulted name value value' hvalue =>
      rw [dissectParameter] at h
      obtain ⟨s, hname, h⟩ := except_bind_eq_ok.mp h
      obtain ⟨a, ha, h⟩ := except_bind_eq_ok.mp h
      cases h
      simp only [Datum.height, heights] at hheight
      obtain ⟨a', ha', hsame⟩ := hs value value' a (by omega) hvalue ha
      refine ⟨⟨⟨s, .values⟩, some a'⟩, ?_, ⟨rfl, .some hsame⟩⟩
      rw [dissectParameter, hname, except_ok_bind, ha']
      rfl

theorem SameBelow.parameters (hs : SameBelow height) {ps ps' : List Datum} {group : Group}
    {groups : List (Group × Parameter Ast)} (hheight : heights ps ≤ height)
    (hps : List.Forall₂ (DefaultLifted Reordered) ps ps')
    (h : dissectParameters group ps = .ok groups) :
    ∃ groups', dissectParameters group ps' = .ok groups' ∧
      List.Forall₂ (fun x y => x.1 = y.1 ∧ SameParameter x.2 y.2) groups groups' := by
  induction hps generalizing group groups with
  | nil =>
      rw [dissectParameters] at h
      cases h
      exact ⟨[], rfl, .nil⟩
  | @cons p p' ps ps' hp _ ih =>
      obtain ⟨hheight, hheights⟩ := heights_cons_le.mp hheight
      rw [dissectParameters] at h
      rw [dissectParameters, ← hp.group?_eq]
      cases hgroup : p.group? with
      | some next =>
          rw [hgroup] at h
          exact ih hheights h
      | none =>
          rw [hgroup] at h
          obtain ⟨q, hq, h⟩ := except_bind_eq_ok.mp h
          obtain ⟨rest, hrest, h⟩ := except_bind_eq_ok.mp h
          cases h
          obtain ⟨q', hq', hsame⟩ := hs.parameter hheight hp hq
          obtain ⟨rest', hrest', hsames⟩ := ih hheights hrest
          refine ⟨(group, q') :: rest', ?_, .cons ⟨rfl, hsame⟩ hsames⟩
          simp only [hq', hrest', except_ok_bind]
          rfl

theorem forall₂_inGroup (group : Group) {groups groups' : List (Group × Parameter Ast)}
    (h : List.Forall₂ (fun x y => x.1 = y.1 ∧ SameParameter x.2 y.2) groups groups') :
    List.Forall₂ SameParameter (inGroup group groups) (inGroup group groups') := by
  unfold inGroup
  rw [List.forall₂_map_left_iff, List.forall₂_map_right_iff]
  have hfilter := List.rel_filter (p := fun x => x.1 == group) (q := fun y => y.1 == group)
    (fun x y hxy => by simp [hxy.1]) h
  exact hfilter.imp fun x y hxy => hxy.2

/-- The groups hold as many parameters as before, and so are collected as before. -/
theorem exists_collectParameters_same {groups groups' : List (Group × Parameter Ast)}
    {ps : Parameters Ast}
    (hgroups : List.Forall₂ (fun x y => x.1 = y.1 ∧ SameParameter x.2 y.2) groups groups')
    (h : collectParameters groups = .ok ps) :
    ∃ ps', collectParameters groups' = .ok ps' ∧ SameParameters ps ps' := by
  have hrest := forall₂_inGroup .rest hgroups
  have hall := forall₂_inGroup .allKeys hgroups
  simp only [collectParameters] at h ⊢
  rw [← hrest.length_eq, ← hall.length_eq]
  split at h
  · cases h
  · split at h
    · cases h
    · rename_i hsingle hsingle'
      cases h
      rw [if_neg hsingle, if_neg hsingle']
      exact ⟨_, rfl, forall₂_inGroup .required hgroups, forall₂_inGroup .optional hgroups,
        forall₂_inGroup .keyword hgroups, forall₂_head? hrest, forall₂_head? hall⟩

theorem SameBelow.parameterList (hs : SameBelow height) {ds ds' : List Datum}
    {ps : Parameters Ast} (hheight : heights ds ≤ height)
    (hds : List.Forall₂ (DefaultLifted Reordered) ds ds')
    (h : (list ds).dissectParameterList = .ok ps) :
    ∃ ps', (list ds').dissectParameterList = .ok ps' ∧ SameParameters ps ps' := by
  rw [dissectParameterList] at h
  obtain ⟨groups, hgroups, h⟩ := except_bind_eq_ok.mp h
  obtain ⟨groups', hgroups', hsames⟩ := hs.parameters hheight hds hgroups
  obtain ⟨ps', hps', hsame⟩ := exists_collectParameters_same hsames h
  refine ⟨ps', ?_, hsame⟩
  rw [dissectParameterList, hgroups', except_ok_bind, hps']

/-! ## Lists -/

/-- The four forms that give a name a value. -/
theorem SameBelow.bound (hs : SameBelow height) {name value value' : Datum} {a : Ast}
    {make : Symbol → Ast → Ast} (hheight : value.height ≤ height) (hr : Reordered value value')
    (h : (do
      let name ← name.asSymbol
      return make name (← value.normalize)) = .ok a)
    (hmake : ∀ {s b b'}, b.Same b' → (make s b).Same (make s b')) :
    ∃ a', (do
      let name ← name.asSymbol
      return make name (← value'.normalize)) = .ok a' ∧ a.Same a' := by
  obtain ⟨s, hname, h⟩ := except_bind_eq_ok.mp h
  obtain ⟨b, hb, h⟩ := except_bind_eq_ok.mp h
  cases h
  obtain ⟨b', hb', hsame⟩ := hs value value' b hheight hr hb
  refine ⟨make s b', ?_, hmake hsame⟩
  rw [hname, except_ok_bind, hb']
  rfl

/-- A list is reordered in its parts, one case for each place where an expression can stand. -/
theorem SameBelow.list (hs : SameBelow height) {ds : List Datum} {d' : Datum} {a : Ast}
    (hheight : heights ds ≤ height) (hr : Reordered (list ds) d')
    (h : (list ds).normalize = .ok a) : ∃ a', d'.normalize = .ok a' ∧ a.Same a' := by
  cases hr with
  | refl => exact ⟨a, h, same_of_normalize h⟩
  | @bound head name value value' hform hvalue =>
      simp only [heights] at hheight
      simp only [List.mem_cons, List.not_mem_nil, or_false] at hform
      rcases hform with hform | hform | hform | hform
      all_goals
        rw [normalize_of_form? hform] at h ⊢
        exact hs.bound (by omega) hvalue h (by simp [Same, same])
  | @conditional head test test' consequent consequent' alternative alternative' hform htest
      hconsequent halternative =>
      simp only [heights] at hheight
      rw [normalize_of_form? hform] at h ⊢
      obtain ⟨t, ht, h⟩ := except_bind_eq_ok.mp h
      obtain ⟨c, hc, h⟩ := except_bind_eq_ok.mp h
      obtain ⟨e, he, h⟩ := except_bind_eq_ok.mp h
      cases h
      obtain ⟨t', ht', htest⟩ := hs test test' t (by omega) htest ht
      obtain ⟨c', hc', hconsequent⟩ := hs _ _ c (by omega) hconsequent hc
      obtain ⟨e', he', halternative⟩ := hs _ _ e (by omega) halternative he
      refine ⟨.cond t' c' e', ?_, ?_⟩
      · rw [normalizeForm, ht', except_ok_bind, hc', except_ok_bind, he']
        rfl
      · simp [Same, same, htest, hconsequent, halternative]
  | @sequence head ds ds' hform hall =>
      simp only [heights] at hheight
      rw [normalize_of_form? hform] at h ⊢
      obtain ⟨as, has, h⟩ := except_bind_eq_ok.mp h
      cases h
      obtain ⟨as', has', hsames⟩ := hs.all (by omega) hall has
      refine ⟨.seq as', ?_, same_seq_iff.mpr hsames⟩
      rw [normalizeForm, has']
      rfl
  | @call head operator operator' us vs ws hform hoperator hvalues hmoved =>
      simp only [heights] at hheight
      rw [normalize_of_form? hform] at h ⊢
      obtain ⟨f, hf, h⟩ := except_bind_eq_ok.mp h
      obtain ⟨args, hargs, h⟩ := except_bind_eq_ok.mp h
      cases h
      obtain ⟨f', hf', hsame⟩ := hs operator operator' f (by omega) hoperator hf
      obtain ⟨args', hargs', hsames⟩ := hs.arguments (by omega) hvalues hmoved hargs
      refine ⟨.app f' args', ?_, same_app_iff.mpr ⟨hsame, hsames⟩⟩
      rw [normalizeForm, hf', except_ok_bind, hargs']
      rfl
  | @application head us vs ws hform hvalues hmoved =>
      rw [normalize_of_form?_eq_none hform] at h ⊢
      obtain ⟨operator, hoperator, h⟩ := except_bind_eq_ok.mp h
      obtain ⟨args, hargs, h⟩ := except_bind_eq_ok.mp h
      cases h
      obtain ⟨args', hargs', hsames⟩ :=
        hs.arguments (heights_cons_le.mp hheight).2 hvalues hmoved hargs
      refine ⟨.app (.ref ⟨operator, .functions⟩) args', ?_,
        same_app_iff.mpr ⟨by simp [Same, same], hsames⟩⟩
      rw [hoperator, except_ok_bind, hargs']
      rfl
  | @abstraction head body body' parameters parameters' hform hparameters hbody =>
      simp only [heights, Datum.height] at hheight
      rw [normalize_of_form? hform] at h ⊢
      obtain ⟨ps, hps, h⟩ := except_bind_eq_ok.mp h
      obtain ⟨b, hb, h⟩ := except_bind_eq_ok.mp h
      cases h
      obtain ⟨ps', hps', hsames⟩ := hs.parameterList (by omega) hparameters hps
      obtain ⟨b', hb', hsame⟩ := hs body body' b (by omega) hbody hb
      refine ⟨.lam ps' b', ?_, same_lam_iff.mpr ⟨hsames, hsame⟩⟩
      rw [normalizeForm, hps', except_ok_bind, hb']
      rfl

theorem sameBelow (height : Nat) : SameBelow height := by
  induction height with
  | zero =>
      intro d d' a hheight hr h
      cases d with
      | list ds => exact absurd hheight (Nat.not_succ_le_zero _)
      | _ =>
          cases hr
          exact ⟨a, h, same_of_normalize h⟩
  | succ height ih =>
      intro d d' a hheight hr h
      cases d with
      | list ds => exact ih.list (Nat.le_of_succ_le_succ hheight) hr h
      | _ =>
          cases hr
          exact ⟨a, h, same_of_normalize h⟩

/-- What is reordered normalizes too, to the same tree. -/
theorem Reordered.normalize {d d' : Datum} {a : Ast} (hr : Reordered d d')
    (h : d.normalize = .ok a) : ∃ a', d'.normalize = .ok a' ∧ a.Same a' :=
  sameBelow d.height d d' a le_rfl hr h

end Datum

/-! ## The normalizer -/

namespace Normalizer

open ObjectSystem (extendedSystem booted_extendedSystem)

/-- The order of keyword arguments makes no difference.  If a syntax object normalizes, so does
every object whose tree is the same with the units of calls moved, be it in the same store or in
another, and the two syntax trees are equal. -/
theorem normalize_reordered {sys : ObjectSystem} (hsys : sys.registry.Booted) :
    ∃ nz : Normalizer,
      (∀ s, ∃ log, (new sys).runFrom s = some (.ok nz, ⟨s.heap, log⟩)) ∧
      ∀ (s s' t : Store) (x x' : Syntax) (d d' : Datum) (a : Ast), s.heap.Unfolds x d →
        s'.heap.Unfolds x' d' → d.Reordered d' →
        (nz.normalize x).runFrom s = some (.ok a, t) →
          ∃ a' t', (nz.normalize x').runFrom s' = some (.ok a', t') ∧ a.same a' = true := by
  obtain ⟨nz, hz, hnew⟩ := exists_ready hsys
  refine ⟨nz, fun s => hnew s.heap s.log, fun s s' t x x' d d' a hx hx' hr hrun => ?_⟩
  obtain ⟨log, hrun'⟩ := hz.answers_normalize hx s.log
  have ha : d.normalize = .ok a := by
    have hsame := hrun'.symm.trans hrun
    simp only [Option.some.injEq, Prod.mk.injEq] at hsame
    exact hsame.1
  obtain ⟨a', ha', hsame⟩ := hr.normalize ha
  obtain ⟨log', hmoved⟩ := hz.answers_normalize hx' s'.log
  rw [ha'] at hmoved
  exact ⟨a', _, hmoved, hsame⟩

/-- The lists of `(lambda (&optional: (p (g a: x b: y))) (f (g a: x b: y) k: x l: y))`, in which
both `(g a: x b: y)` are one list. -/
def nestedLists : Heap :=
  ⟨#[[.ofSymbol ⟨"lambda"⟩, .list ⟨1⟩, .list ⟨3⟩],
    [.ofSymbol ⟨"&optional:"⟩, .list ⟨2⟩],
    [.ofSymbol ⟨"p"⟩, .list ⟨4⟩],
    [.ofSymbol ⟨"f"⟩, .list ⟨4⟩, .ofSymbol ⟨"k:"⟩, .ofSymbol ⟨"x"⟩, .ofSymbol ⟨"l:"⟩,
      .ofSymbol ⟨"y"⟩],
    [.ofSymbol ⟨"g"⟩, .ofSymbol ⟨"a:"⟩, .ofSymbol ⟨"x"⟩, .ofSymbol ⟨"b:"⟩, .ofSymbol ⟨"y"⟩]]⟩

/-- The lists of `(lambda (&optional: (p (g b: y a: x))) (f l: y (g b: y a: x) k: x))`. -/
def movedLists : Heap :=
  ⟨#[[.ofSymbol ⟨"lambda"⟩, .list ⟨1⟩, .list ⟨3⟩],
    [.ofSymbol ⟨"&optional:"⟩, .list ⟨2⟩],
    [.ofSymbol ⟨"p"⟩, .list ⟨4⟩],
    [.ofSymbol ⟨"f"⟩, .ofSymbol ⟨"l:"⟩, .ofSymbol ⟨"y"⟩, .list ⟨4⟩, .ofSymbol ⟨"k:"⟩,
      .ofSymbol ⟨"x"⟩],
    [.ofSymbol ⟨"g"⟩, .ofSymbol ⟨"b:"⟩, .ofSymbol ⟨"y"⟩, .ofSymbol ⟨"a:"⟩, .ofSymbol ⟨"x"⟩]]⟩

/-- The unit of a keyword and a variable. -/
def unitOf (marker key value : String)
    (hmarker : (Datum.ofSymbol ⟨marker⟩).keyword? = some ⟨key⟩) : ArgumentUnit :=
  .keyword (.ofSymbol ⟨marker⟩) ⟨key⟩ hmarker (.ofSymbol ⟨value⟩)

/-- The unit `a: x`. -/
def unitA : ArgumentUnit := unitOf "a:" "a" "x" (by decide +kernel)

/-- The unit `b: y`. -/
def unitB : ArgumentUnit := unitOf "b:" "b" "y" (by decide +kernel)

/-- The unit `k: x`. -/
def unitK : ArgumentUnit := unitOf "k:" "k" "x" (by decide +kernel)

/-- The unit `l: y`. -/
def unitL : ArgumentUnit := unitOf "l:" "l" "y" (by decide +kernel)

/-- The application of a function to units. -/
def callTree (operator : String) (us : List ArgumentUnit) : Datum :=
  .list (.ofSymbol ⟨operator⟩ :: ArgumentUnit.elementsOf us)

/-- The function `f` of the units, with one optional parameter of this default. -/
def lambdaTree (default : Datum) (us : List ArgumentUnit) : Datum :=
  .list [.ofSymbol ⟨"lambda"⟩,
    .list [.ofSymbol ⟨"&optional:"⟩, .list [.ofSymbol ⟨"p"⟩, default]], callTree "f" us]

/-- The tree of `nestedLists`. -/
def nestedTree : Datum :=
  lambdaTree (callTree "g" [unitA, unitB])
    [.positional (callTree "g" [unitA, unitB]) rfl, unitK, unitL]

/-- The tree of `movedLists`. -/
def movedTree : Datum :=
  lambdaTree (callTree "g" [unitB, unitA])
    [unitL, .positional (callTree "g" [unitB, unitA]) rfl, unitK]

theorem reordered_nestedTree : nestedTree.Reordered movedTree := by
  have hunit (u : ArgumentUnit) : ArgumentUnit.Lifted Datum.Reordered u u := by
    cases u with
    | positional => exact .positional (.refl _)
    | keyword => exact .keyword (.refl _)
  have hinner : (callTree "g" [unitA, unitB]).Reordered (callTree "g" [unitB, unitA]) :=
    .application (by decide +kernel) (.cons (hunit unitA) (.cons (hunit unitB) .nil))
      (.swap (by decide +kernel) [] [])
  have hmoved : Moved [.positional (callTree "g" [unitB, unitA]) rfl, unitK, unitL]
      [unitL, .positional (callTree "g" [unitB, unitA]) rfl, unitK] :=
    (Moved.swap (by decide +kernel) [.positional (callTree "g" [unitB, unitA]) rfl] []).trans
      (.swap (by decide +kernel) [] [unitK])
  have houter : Datum.Reordered
      (callTree "f" [.positional (callTree "g" [unitA, unitB]) rfl, unitK, unitL])
      (callTree "f" [unitL, .positional (callTree "g" [unitB, unitA]) rfl, unitK]) :=
    .application (by decide +kernel)
      (.cons (.positional hinner) (.cons (hunit unitK) (.cons (hunit unitL) .nil))) hmoved
  exact .abstraction (by decide +kernel) (.cons (.same _) (.cons (.defaulted hinner) .nil)) houter

/-- Arguments are moved at two depths, in a default value and in a body, also past a positional
one. -/
theorem normalize_movedLists :
    extendedSystem.registry.Booted ∧ nestedLists.Unfolds (.list ⟨0⟩) nestedTree ∧
      movedLists.Unfolds (.list ⟨0⟩) movedTree ∧ nestedTree.Reordered movedTree ∧
      ∃ nz : Normalizer,
        (∀ s, ∃ log, (new extendedSystem).runFrom s = some (.ok nz, ⟨s.heap, log⟩)) ∧
        ∃ a a' t t', (nz.normalize (.list ⟨0⟩)).runFrom ⟨nestedLists, #[]⟩ = some (.ok a, t) ∧
          (nz.normalize (.list ⟨0⟩)).runFrom ⟨movedLists, #[]⟩ = some (.ok a', t') ∧
          a.same a' = true := by
  have hnested : nestedLists.Unfolds (.list ⟨0⟩) nestedTree := by
    simp [nestedTree, lambdaTree, callTree, ArgumentUnit.elementsOf, ArgumentUnit.elements, unitA,
      unitB, unitK, unitL, unitOf, Datum.ofSymbol, nestedLists, Heap.Unfolds, Heap.elements,
      Heap.size, Syntax.ofSymbol]
  have hmoved : movedLists.Unfolds (.list ⟨0⟩) movedTree := by
    simp [movedTree, lambdaTree, callTree, ArgumentUnit.elementsOf, ArgumentUnit.elements, unitA,
      unitB, unitK, unitL, unitOf, Datum.ofSymbol, movedLists, Heap.Unfolds, Heap.elements,
      Heap.size, Syntax.ofSymbol]
  obtain ⟨nz, hnew, hsame⟩ := normalize_reordered booted_extendedSystem
  obtain ⟨nz', hz, hnew'⟩ := exists_ready booted_extendedSystem
  -- There is only one normalizer, so the first is ready too.
  obtain ⟨log, hrun⟩ := hnew .empty
  obtain ⟨log', hrun'⟩ := hnew' Heap.empty #[]
  obtain rfl : nz = nz' := by
    have hboth := hrun.symm.trans hrun'
    simp only [Option.some.injEq, Prod.mk.injEq, Except.ok.injEq] at hboth
    exact hboth.1
  obtain ⟨a, ha⟩ : ∃ a, nestedTree.normalize = .ok a := ⟨_, rfl⟩
  obtain ⟨log'', hnormal⟩ := hz.answers_normalize hnested #[]
  rw [ha] at hnormal
  obtain ⟨a', t', hmovedrun, hequal⟩ := hsame _ ⟨movedLists, #[]⟩ _ _ _ _ _ a hnested hmoved
    reordered_nestedTree hnormal
  exact ⟨booted_extendedSystem, hnested, hmoved, reordered_nestedTree, nz, hnew, a, a', _, t',
    hnormal, hmovedrun, hequal⟩

end Normalizer
end LispFront
