import LispFront.Proofs.Normalize.Reordering

/-!
# Explicit calls

A function is applied by its name at the head of a list, as in `(f x)`, or by calling a reference to
it, as in `(funcall (fref f) x)`.  The two normalize to the same, also when they fail
(`Datum.normalize_explicit`).  `Datum.MadeExplicit` replaces any number of applications by calls
wherever an expression stands, at any depth; the errors then show other texts, but what normalizes
still does, and to the same tree (`Datum.MadeExplicit.normalize_toOption_eq`).

The induction is on the height of the tree, as for `Datum.Reordered`.
-/

namespace LispFront

open Normalize

theorem toOption_bind {α β : Type} (x : Except Error α) (f : α → Except Error β) :
    (x >>= f).toOption = x.toOption >>= fun a => (f a).toOption := by
  cases x <;> rfl

namespace Datum

/-! ## One application -/

/-- A function that is called by a reference to it is a function that is applied by its name. -/
theorem normalize_explicit {function : SyntaxSymbol} {call reference : Datum}
    (hcall : call.form? = some .call) (hreference : reference.form? = some .functionReference)
    (hfunction : (symbol function).form? = none) (args : List Datum) :
    (list (call :: list [reference, .symbol function] :: args)).normalize =
      (list (.symbol function :: args)).normalize := by
  have hoperator : (list [reference, .symbol function]).normalize =
      .ok (.ref ⟨function.symbol, .functions⟩) := by
    rw [normalize_of_form? hreference]
    rfl
  rw [normalize_of_form? hcall, normalize_of_form?_eq_none hfunction, normalizeForm, hoperator]
  rfl

/-! ## Any number of applications -/

/-- One tree is the other with any number of applications made explicit.  Names, keyword markers and
parameter lists stay; a default value in a parameter list is an expression.  The forms may have any
number of parts. -/
inductive MadeExplicit : Datum → Datum → Prop
  | refl (d : Datum) : MadeExplicit d d
  | application {function : SyntaxSymbol} {call reference : Datum} {args args' : List Datum}
      (hcall : call.form? = some .call) (hreference : reference.form? = some .functionReference)
      (hfunction : (symbol function).form? = none) (hargs : List.Forall₂ MadeExplicit args args') :
      MadeExplicit (.list (.symbol function :: args))
        (.list (call :: .list [reference, .symbol function] :: args'))
  | parts {head : Datum} {ds ds' : List Datum}
      (hform : head.form? ∈ [none, some .conditional, some .sequence, some .call])
      (hparts : List.Forall₂ MadeExplicit ds ds') :
      MadeExplicit (.list (head :: ds)) (.list (head :: ds'))
  | values {head name : Datum} {ds ds' : List Datum}
      (hform : head.form? ∈ [some .defineVariable, some .defineFunction, some .assignVariable,
        some .assignFunction, some .abstraction])
      (hvalues : List.Forall₂ MadeExplicit ds ds') :
      MadeExplicit (.list (head :: name :: ds)) (.list (head :: name :: ds'))
  | abstraction {head : Datum} {ps ps' ds ds' : List Datum}
      (hform : head.form? = some .abstraction)
      (hdefaults : List.Forall₂ (DefaultLifted MadeExplicit) ps ps')
      (hbody : List.Forall₂ MadeExplicit ds ds') :
      MadeExplicit (.list (head :: .list ps :: ds)) (.list (head :: .list ps' :: ds'))

/-- A marker is a symbol, and symbols stay. -/
theorem MadeExplicit.keyword?_eq {d d' : Datum} (h : MadeExplicit d d') :
    d.keyword? = d'.keyword? := by
  cases h <;> rfl

/-- Up to a height, what is made explicit normalizes when it did before, and to the same tree. -/
def NormalizesBelow (height : Nat) : Prop :=
  ∀ d d' : Datum, d.height ≤ height → MadeExplicit d d' →
    d.normalize.toOption = d'.normalize.toOption

variable {height : Nat}

theorem NormalizesBelow.all (hn : NormalizesBelow height) {ds ds' : List Datum}
    (hheight : heights ds ≤ height) (hall : List.Forall₂ MadeExplicit ds ds') :
    (normalizeAll ds).toOption = (normalizeAll ds').toOption := by
  induction hall with
  | nil => rfl
  | @cons d d' ds ds' hd _ ih =>
      obtain ⟨hheight, hheights⟩ := heights_cons_le.mp hheight
      simp only [normalizeAll, toOption_bind, hn d d' hheight hd, ih hheights]

/-- Arguments are dissected alike.  The recursion takes one element, or a keyword with its value. -/
theorem NormalizesBelow.arguments (hn : NormalizesBelow height) :
    {ds ds' : List Datum} → heights ds ≤ height → List.Forall₂ MadeExplicit ds ds' →
      ∀ args : Arguments Ast,
        (dissectArguments args ds).toOption = (dissectArguments args ds').toOption
  | [], _, _, .nil, _ => rfl
  | element :: rest, element' :: rest', hheight, .cons helement hrest, args => by
      obtain ⟨hheight, hheights⟩ := heights_cons_le.mp hheight
      rw [dissectArguments, dissectArguments, ← helement.keyword?_eq]
      cases element.keyword? with
      | none =>
          simp only [toOption_bind, hn element element' hheight helement,
            hn.arguments hheights hrest]
      | some key =>
          match rest, rest', hrest with
          | [], _, .nil => rfl
          | value :: rest, value' :: rest', .cons hvalue hrest =>
              obtain ⟨hheight, hheights⟩ := heights_cons_le.mp hheights
              simp only [toOption_bind, hn value value' hheight hvalue,
                hn.arguments hheights hrest]

theorem NormalizesBelow.parameter (hn : NormalizesBelow height) {p p' : Datum}
    (hheight : p.height ≤ height) (hp : DefaultLifted MadeExplicit p p') :
    p.dissectParameter.toOption = p'.dissectParameter.toOption := by
  cases hp with
  | same => rfl
  | @defaulted name value value' hvalue =>
      simp only [Datum.height, heights] at hheight
      simp only [dissectParameter, toOption_bind, hn value value' (by omega) hvalue]

theorem NormalizesBelow.parameters (hn : NormalizesBelow height) {ps ps' : List Datum}
    (hheight : heights ps ≤ height) (hps : List.Forall₂ (DefaultLifted MadeExplicit) ps ps')
    (group : Group) :
    (dissectParameters group ps).toOption = (dissectParameters group ps').toOption := by
  induction hps generalizing group with
  | nil => rfl
  | @cons p p' ps ps' hp _ ih =>
      obtain ⟨hheight, hheights⟩ := heights_cons_le.mp hheight
      rw [dissectParameters, dissectParameters, ← hp.group?_eq]
      cases p.group? with
      | some next => exact ih hheights next
      | none => simp only [toOption_bind, hn.parameter hheight hp, ih hheights]

theorem NormalizesBelow.parameterList (hn : NormalizesBelow height) {ps ps' : List Datum}
    (hheight : heights ps ≤ height) (hps : List.Forall₂ (DefaultLifted MadeExplicit) ps ps') :
    (list ps).dissectParameterList.toOption = (list ps').dissectParameterList.toOption := by
  simp only [dissectParameterList, toOption_bind, hn.parameters hheight hps]

/-! ## Forms -/

/-- The forms all of whose parts are expressions.  With a wrong number of parts they fail. -/
theorem NormalizesBelow.parts (hn : NormalizesBelow height) {head : Datum} {ds ds' : List Datum}
    {form : SpecialForm} (hform : form ∈ [.conditional, .sequence, .call])
    (hheight : heights ds ≤ height) (hparts : List.Forall₂ MadeExplicit ds ds') :
    (normalizeForm form (head :: ds)).toOption = (normalizeForm form (head :: ds')).toOption := by
  simp only [List.mem_cons, List.not_mem_nil, or_false] at hform
  rcases hform with rfl | rfl | rfl
  · match hparts with
    | .cons htest (.cons hconsequent (.cons halternative .nil)) =>
        simp only [heights] at hheight
        simp only [normalizeForm, toOption_bind, hn _ _ (by omega) htest,
          hn _ _ (by omega) hconsequent, hn _ _ (by omega) halternative]
    | .nil | .cons _ .nil | .cons _ (.cons _ .nil) | .cons _ (.cons _ (.cons _ (.cons _ _))) =>
        rfl
  · simp only [normalizeForm, toOption_bind, hn.all hheight hparts]
  · match hparts with
    | .nil => rfl
    | .cons hoperator hargs =>
        obtain ⟨hheight, hheights⟩ := heights_cons_le.mp hheight
        simp only [normalizeForm, toOption_bind, hn _ _ hheight hoperator,
          hn.arguments hheights hargs]

/-- The forms whose first part is not an expression. -/
theorem NormalizesBelow.values (hn : NormalizesBelow height) {head name : Datum}
    {ds ds' : List Datum} {form : SpecialForm}
    (hform : form ∈ [.defineVariable, .defineFunction, .assignVariable, .assignFunction,
      .abstraction])
    (hheight : heights ds ≤ height) (hvalues : List.Forall₂ MadeExplicit ds ds') :
    (normalizeForm form (head :: name :: ds)).toOption =
      (normalizeForm form (head :: name :: ds')).toOption := by
  simp only [List.mem_cons, List.not_mem_nil, or_false] at hform
  rcases hform with rfl | rfl | rfl | rfl | rfl
  all_goals
    match hvalues with
    | .cons hvalue .nil =>
        simp only [heights] at hheight
        simp only [normalizeForm, toOption_bind, hn _ _ (by omega) hvalue]
    | .nil | .cons _ (.cons _ _) => rfl

theorem NormalizesBelow.abstraction (hn : NormalizesBelow height) {head : Datum}
    {ps ps' ds ds' : List Datum} (hheight : heights (list ps :: ds) ≤ height)
    (hdefaults : List.Forall₂ (DefaultLifted MadeExplicit) ps ps')
    (hbody : List.Forall₂ MadeExplicit ds ds') :
    (normalizeForm .abstraction (head :: list ps :: ds)).toOption =
      (normalizeForm .abstraction (head :: list ps' :: ds')).toOption := by
  match hbody with
  | .cons hvalue .nil =>
      simp only [heights, Datum.height] at hheight
      simp only [normalizeForm, toOption_bind, hn.parameterList (by omega) hdefaults,
        hn _ _ (by omega) hvalue]
  | .nil | .cons _ (.cons _ _) => rfl

/-- A list is made explicit in its parts, and may itself be an application. -/
theorem NormalizesBelow.list (hn : NormalizesBelow height) {ds : List Datum} {d' : Datum}
    (hheight : heights ds ≤ height) (h : MadeExplicit (list ds) d') :
    (list ds).normalize.toOption = d'.normalize.toOption := by
  cases h with
  | refl => rfl
  | application hcall hreference hfunction hargs =>
      rw [normalize_explicit hcall hreference hfunction, normalize_of_form?_eq_none hfunction,
        normalize_of_form?_eq_none hfunction]
      simp only [toOption_bind, hn.arguments (heights_cons_le.mp hheight).2 hargs]
  | @parts head ds ds' hform hparts =>
      obtain ⟨-, hheights⟩ := heights_cons_le.mp hheight
      cases hhead : head.form? with
      | none =>
          rw [normalize_of_form?_eq_none hhead, normalize_of_form?_eq_none hhead]
          simp only [toOption_bind, hn.arguments hheights hparts]
      | some form =>
          rw [normalize_of_form? hhead, normalize_of_form? hhead]
          exact hn.parts (by simpa [hhead] using hform) hheights hparts
  | @values head name ds ds' hform hvalues =>
      obtain ⟨-, hheights⟩ := heights_cons_le.mp (heights_cons_le.mp hheight).2
      cases hhead : head.form? with
      | none => simp [hhead] at hform
      | some form =>
          rw [normalize_of_form? hhead, normalize_of_form? hhead]
          exact hn.values (by simpa [hhead] using hform) hheights hvalues
  | abstraction hform hdefaults hbody =>
      rw [normalize_of_form? hform, normalize_of_form? hform]
      exact hn.abstraction (heights_cons_le.mp hheight).2 hdefaults hbody

theorem normalizesBelow (height : Nat) : NormalizesBelow height := by
  induction height with
  | zero =>
      intro d d' hheight h
      cases d with
      | list ds => exact absurd hheight (Nat.not_succ_le_zero _)
      | _ =>
          cases h
          rfl
  | succ height ih =>
      intro d d' hheight h
      cases d with
      | list ds => exact ih.list (Nat.le_of_succ_le_succ hheight) h
      | _ =>
          cases h
          rfl

/-- What is made explicit normalizes if and only if it did before, and to the same tree. -/
theorem MadeExplicit.normalize_toOption_eq {d d' : Datum} (h : MadeExplicit d d') :
    d.normalize.toOption = d'.normalize.toOption :=
  normalizesBelow d.height d d' le_rfl h

end Datum

/-! ## The normalizer -/

namespace Normalizer

open ObjectSystem (extendedSystem booted_extendedSystem)

/-- Applying a function by its name and calling a reference to it are the same.  One such call gives
the result of the application, be it a syntax tree or an error.  A syntax object in whose tree any
number of applications are made explicit normalizes if and only if the other does, and to the same
syntax tree. -/
theorem normalize_madeExplicit {sys : ObjectSystem} (hsys : sys.registry.Booted) :
    ∃ nz : Normalizer,
      (∀ s, ∃ log, (new sys).runFrom s = some (.ok nz, ⟨s.heap, log⟩)) ∧
      (∀ (s t : Store) (x y : Syntax) (function : SyntaxSymbol) (call reference : Datum)
        (args : List Datum), (Datum.symbol function).form? = none → call.form? = some .call →
        reference.form? = some .functionReference →
        s.heap.Unfolds x (.list (.symbol function :: args)) →
        t.heap.Unfolds y (.list (call :: .list [reference, .symbol function] :: args)) →
          (nz.normalize x).AnswerAlike (nz.normalize y) s t) ∧
      ∀ (s t : Store) (x y : Syntax) (d e : Datum), s.heap.Unfolds x d → t.heap.Unfolds y e →
        d.MadeExplicit e → ∀ a : Ast,
          (∃ s', (nz.normalize x).runFrom s = some (.ok a, s')) ↔
          (∃ t', (nz.normalize y).runFrom t = some (.ok a, t')) := by
  obtain ⟨nz, hz, hnew⟩ := exists_ready hsys
  refine ⟨nz, fun s => hnew s.heap s.log, ?_, ?_⟩
  · intro s t x y function call reference args hfunction hcall hreference hx hy
    have hexplicit := hz.answers_normalize hy
    rw [Datum.normalize_explicit hcall hreference hfunction] at hexplicit
    exact (hz.answers_normalize hx).alike hexplicit
  · intro s t x y d e hx hy hmade a
    rw [(hz.answers_normalize hx).exists_ok_iff, (hz.answers_normalize hy).exists_ok_iff,
      hmade.normalize_toOption_eq]

/-- The application of a function by its name. -/
def byName (function : String) (args : List Datum) : Datum :=
  .list (.ofSymbol ⟨function⟩ :: args)

/-- The call of a reference to a function. -/
def byReference (function : String) (args : List Datum) : Datum :=
  .list (.ofSymbol ⟨"funcall"⟩ :: .list [.ofSymbol ⟨"fref"⟩, .ofSymbol ⟨function⟩] :: args)

/-- The function `(lambda (&optional: (p default)) body)`. -/
def withDefault (default body : Datum) : Datum :=
  .list [.ofSymbol ⟨"lambda"⟩,
    .list [.ofSymbol ⟨"&optional:"⟩, .list [.ofSymbol ⟨"p"⟩, default]], body]

/-- The lists of `(lambda (&optional: (p (f x))) (g k: (f x)))` and of `(f k:)`. -/
def implicitLists : Heap :=
  ⟨#[[.ofSymbol ⟨"lambda"⟩, .list ⟨1⟩, .list ⟨3⟩],
    [.ofSymbol ⟨"&optional:"⟩, .list ⟨2⟩],
    [.ofSymbol ⟨"p"⟩, .list ⟨4⟩],
    [.ofSymbol ⟨"g"⟩, .ofSymbol ⟨"k:"⟩, .list ⟨4⟩],
    [.ofSymbol ⟨"f"⟩, .ofSymbol ⟨"x"⟩],
    [.ofSymbol ⟨"f"⟩, .ofSymbol ⟨"k:"⟩]]⟩

/-- The same lists with every application made explicit. -/
def explicitLists : Heap :=
  ⟨#[[.ofSymbol ⟨"lambda"⟩, .list ⟨1⟩, .list ⟨3⟩],
    [.ofSymbol ⟨"&optional:"⟩, .list ⟨2⟩],
    [.ofSymbol ⟨"p"⟩, .list ⟨4⟩],
    [.ofSymbol ⟨"funcall"⟩, .list ⟨7⟩, .ofSymbol ⟨"k:"⟩, .list ⟨4⟩],
    [.ofSymbol ⟨"funcall"⟩, .list ⟨6⟩, .ofSymbol ⟨"x"⟩],
    [.ofSymbol ⟨"funcall"⟩, .list ⟨6⟩, .ofSymbol ⟨"k:"⟩],
    [.ofSymbol ⟨"fref"⟩, .ofSymbol ⟨"f"⟩],
    [.ofSymbol ⟨"fref"⟩, .ofSymbol ⟨"g"⟩]]⟩

/-- The tree of `(lambda (&optional: (p (f x))) (g k: (f x)))`, with applications in this form. -/
def formTree (apply : String → List Datum → Datum) : Datum :=
  withDefault (apply "f" [.ofSymbol ⟨"x"⟩])
    (apply "g" [.ofSymbol ⟨"k:"⟩, apply "f" [.ofSymbol ⟨"x"⟩]])

/-- The function that both trees stand for. -/
def defaultFunction : Ast :=
  let applied : Ast := .app (.ref ⟨⟨"f"⟩, .functions⟩) ⟨[.ref ⟨⟨"x"⟩, .values⟩], []⟩
  .lam ⟨[], [⟨⟨⟨"p"⟩, .values⟩, some applied⟩], [], none, none⟩
    (.app (.ref ⟨⟨"g"⟩, .functions⟩) ⟨[], [(⟨"k"⟩, applied)]⟩)

theorem madeExplicit_byReference {function : String} {args args' : List Datum}
    (hfunction : (Datum.ofSymbol ⟨function⟩).form? = none)
    (hargs : List.Forall₂ Datum.MadeExplicit args args') :
    (byName function args).MadeExplicit (byReference function args') :=
  .application (by decide) (by decide) hfunction hargs

theorem madeExplicit_formTree : (formTree byName).MadeExplicit (formTree byReference) := by
  have hinner : (byName "f" [.ofSymbol ⟨"x"⟩]).MadeExplicit
      (byReference "f" [.ofSymbol ⟨"x"⟩]) :=
    madeExplicit_byReference (by decide) (.cons (.refl _) .nil)
  have houter : (byName "g" [.ofSymbol ⟨"k:"⟩, byName "f" [.ofSymbol ⟨"x"⟩]]).MadeExplicit
      (byReference "g" [.ofSymbol ⟨"k:"⟩, byReference "f" [.ofSymbol ⟨"x"⟩]]) :=
    madeExplicit_byReference (by decide) (.cons (.refl _) (.cons hinner .nil))
  exact .abstraction (by decide) (.cons (.same _) (.cons (.defaulted hinner) .nil))
    (.cons houter .nil)

/-- Applications are made explicit in a default value, in a body and in the value of a keyword
there; and a keyword without a value is reported alike. -/
theorem normalize_explicitLists :
    extendedSystem.registry.Booted ∧ ∃ nz : Normalizer,
      (∀ s, ∃ log, (new extendedSystem).runFrom s = some (.ok nz, ⟨s.heap, log⟩)) ∧
      (∃ log log',
        (nz.normalize (.list ⟨5⟩)).runFrom ⟨implicitLists, #[]⟩ =
          some (.error (.missingKeywordValue ⟨"k"⟩), ⟨implicitLists, log⟩) ∧
        (nz.normalize (.list ⟨5⟩)).runFrom ⟨explicitLists, #[]⟩ =
          some (.error (.missingKeywordValue ⟨"k"⟩), ⟨explicitLists, log'⟩)) ∧
      ∃ s' t',
        (nz.normalize (.list ⟨0⟩)).runFrom ⟨implicitLists, #[]⟩ = some (.ok defaultFunction, s') ∧
        (nz.normalize (.list ⟨0⟩)).runFrom ⟨explicitLists, #[]⟩ = some (.ok defaultFunction, t') := by
  have himplicit : implicitLists.Unfolds (.list ⟨0⟩) (formTree byName) := by
    simp [implicitLists, formTree, withDefault, byName, Heap.Unfolds, Heap.elements, Heap.size,
      Syntax.ofSymbol, Datum.ofSymbol]
  have hexplicit : explicitLists.Unfolds (.list ⟨0⟩) (formTree byReference) := by
    simp [explicitLists, formTree, withDefault, byReference, Heap.Unfolds, Heap.elements, Heap.size,
      Syntax.ofSymbol, Datum.ofSymbol]
  have hnamed : implicitLists.Unfolds (.list ⟨5⟩) (byName "f" [.ofSymbol ⟨"k:"⟩]) := by
    simp [implicitLists, byName, Heap.Unfolds, Heap.elements, Heap.size, Syntax.ofSymbol,
      Datum.ofSymbol]
  have hreferred : explicitLists.Unfolds (.list ⟨5⟩) (byReference "f" [.ofSymbol ⟨"k:"⟩]) := by
    simp [explicitLists, byReference, Heap.Unfolds, Heap.elements, Heap.size, Syntax.ofSymbol,
      Datum.ofSymbol]
  obtain ⟨nz, hnew, hone, hany⟩ := normalize_madeExplicit booted_extendedSystem
  have hz : nz.Ready := ready_of_new booted_extendedSystem hnew
  have halike := hone ⟨implicitLists, #[]⟩ ⟨explicitLists, #[]⟩ _ _ _ _ _ _ (by decide) (by decide)
    (by decide) hnamed hreferred
  have hfunction : ∃ s', (nz.normalize (.list ⟨0⟩)).runFrom ⟨implicitLists, #[]⟩ =
      some (.ok defaultFunction, s') :=
    (hz.answers_normalize himplicit).exists_ok_iff.mpr rfl
  obtain ⟨t', hrun'⟩ := (hany ⟨implicitLists, #[]⟩ ⟨explicitLists, #[]⟩ _ _ _ _ himplicit hexplicit
    madeExplicit_formTree defaultFunction).mp hfunction
  obtain ⟨s', hrun⟩ := hfunction
  exact ⟨booted_extendedSystem, nz, hnew, halike.exists_runs (hz.answers_normalize hreferred), s',
    t', hrun, hrun'⟩

end Normalizer
end LispFront
