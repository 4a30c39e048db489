import LispFront.Proofs.Normalize.Agreement

/-!
# Hygiene contexts

A symbol of a source text may carry the expansion environment that it came from.  Nothing that is
done with a syntax object up to its syntax tree looks at it.  `Datum.Alike` compares two trees up to
these contexts, and `Datum.plain` takes the contexts away, so that alike trees become one tree
(`Datum.Alike.plain_eq`).  A tree and the tree without contexts have the same written form, and so
stand for the same errors; they mark the same keywords and open the same groups of parameters; hence
they normalize to the same (`Datum.normalize_plain`).

The induction is on the tree, along the recursion of normalization.
-/

namespace LispFront

open Normalize

namespace Datum

/-! ## Trees up to contexts -/

mutual

/-- The trees differ in nothing but the hygiene contexts of their symbols. -/
def Alike : Datum → Datum → Prop
  | .symbol s, .symbol t => s.symbol = t.symbol
  | .string text, .string other => text = other
  | .number m, .number n => m = n
  | .list ds, .list es => AllAlike ds es
  | _, _ => False

/-- There are as many trees, and they differ in nothing but hygiene contexts, one by one. -/
def AllAlike : List Datum → List Datum → Prop
  | [], [] => True
  | d :: ds, e :: es => Alike d e ∧ AllAlike ds es
  | _, _ => False

end

mutual

/-- The tree without any hygiene context. -/
def plain : Datum → Datum
  | .symbol s => .symbol ⟨s.symbol, none⟩
  | .string text => .string text
  | .number n => .number n
  | .list ds => .list (plainAll ds)

/-- The trees without any hygiene context. -/
def plainAll : List Datum → List Datum
  | [] => []
  | d :: ds => plain d :: plainAll ds

end

mutual

/-- Without contexts, alike trees are one tree. -/
theorem Alike.plain_eq : {d e : Datum} → d.Alike e → d.plain = e.plain
  | .symbol s, .symbol t, h => by
      rw [Alike] at h
      simp [plain, h]
  | .string text, .string other, h => by
      rw [Alike] at h
      rw [h]
  | .number m, .number n, h => by
      rw [Alike] at h
      rw [h]
  | .list ds, .list es, h => by
      rw [Alike] at h
      simp [plain, AllAlike.plainAll_eq h]

theorem AllAlike.plainAll_eq : {ds es : List Datum} → AllAlike ds es → plainAll ds = plainAll es
  | [], [], _ => rfl
  | d :: ds, e :: es, h => by
      rw [AllAlike] at h
      simp [plainAll, Alike.plain_eq h.1, AllAlike.plainAll_eq h.2]

end

/-! ## What is seen of a tree -/

@[simp] theorem length_plainAll (ds : List Datum) : (plainAll ds).length = ds.length := by
  induction ds with
  | nil => rfl
  | cons d ds ih => simp [plainAll, ih]

mutual

@[simp] theorem toText_plain : (d : Datum) → d.plain.toText = d.toText
  | .symbol s => by simp [plain, toText]
  | .string text => by rw [plain]
  | .number n => by rw [plain]
  | .list ds => by simp [plain, toText, elementsText_plainAll ds]

@[simp] theorem elementsText_plainAll : (ds : List Datum) →
    elementsText (plainAll ds) = elementsText ds
  | [] => rfl
  | d :: ds => by simp [plainAll, elementsText, toText_plain d, elementsText_plainAll ds]

end

@[simp] theorem kind_plain (d : Datum) : d.plain.kind = d.kind := by
  cases d <;> simp [plain, kind]

@[simp] theorem describe_plain (d : Datum) : d.plain.describe = d.describe := by
  simp [describe]

@[simp] theorem asSymbol_plain (d : Datum) : d.plain.asSymbol = d.asSymbol := by
  cases d with
  | symbol s => simp [plain, asSymbol]
  | list ds =>
      have hdescribe := describe_plain (.list ds)
      simp only [plain] at hdescribe
      simp [plain, asSymbol, hdescribe]
  | _ => rw [plain]

@[simp] theorem keyword?_plain (d : Datum) : d.plain.keyword? = d.keyword? := by
  cases d <;> simp [plain, keyword?]

@[simp] theorem group?_plain (d : Datum) : d.plain.group? = d.group? := by
  cases d <;> simp [plain, group?]

/-- Errors show a list by its text and its length, and so they do not show contexts. -/
@[simp] theorem shapeError_plainAll (ds : List Datum) (expected : Arity) :
    shapeError (plainAll ds) expected = shapeError ds expected := by
  have htext := toText_plain (.list ds)
  rw [plain] at htext
  simp [shapeError, htext]

/-! ## Normalization -/

mutual

/-- Normalization does not look at contexts, be its result a syntax tree or an error. -/
theorem normalize_plain : (d : Datum) → d.plain.normalize = d.normalize
  | .symbol s => by simp [plain, normalize]
  | .string text => by rw [plain]
  | .number n => by rw [plain]
  | .list [] => by rw [plain, plainAll]
  | .list (head :: parts) => by
      have hform (form : SpecialForm) := normalizeForm_plainAll form (head :: parts)
      simp only [plainAll] at hform
      simp only [plain, plainAll, normalize, asSymbol_plain, hform,
        dissectArguments_plainAll parts]

theorem normalizeForm_plainAll (form : SpecialForm) (ds : List Datum) :
    normalizeForm form (plainAll ds) = normalizeForm form ds := by
  by_cases hlength : form.arity.admits ds.length = true
  · exact normalizeForm_plainAll_of_admits form ds hlength
  · have hlength' : ¬ form.arity.admits (plainAll ds).length = true := by simpa using hlength
    simp [normalizeForm_of_not_admits hlength, normalizeForm_of_not_admits hlength']

/-- With the right number of elements each form looks at its parts, which are alike. -/
theorem normalizeForm_plainAll_of_admits : (form : SpecialForm) → (ds : List Datum) →
    form.arity.admits ds.length = true →
    normalizeForm form (plainAll ds) = normalizeForm form ds
  | .functionReference, [_, name], _ => by
      simp only [plainAll, normalizeForm, asSymbol_plain]
  | .defineVariable, [_, name, value], _ => by
      simp only [plainAll, normalizeForm, asSymbol_plain, normalize_plain value]
  | .defineFunction, [_, name, value], _ => by
      simp only [plainAll, normalizeForm, asSymbol_plain, normalize_plain value]
  | .assignVariable, [_, name, value], _ => by
      simp only [plainAll, normalizeForm, asSymbol_plain, normalize_plain value]
  | .assignFunction, [_, name, value], _ => by
      simp only [plainAll, normalizeForm, asSymbol_plain, normalize_plain value]
  | .conditional, [_, test, consequent, alternative], _ => by
      simp only [plainAll, normalizeForm, normalize_plain test, normalize_plain consequent,
        normalize_plain alternative]
  | .sequence, _ :: expressions, _ => by
      simp only [plainAll, normalizeForm, normalizeAll_plainAll expressions]
  | .call, _ :: operator :: args, _ => by
      simp only [plainAll, normalizeForm, normalize_plain operator,
        dissectArguments_plainAll args]
  | .abstraction, [_, parameters, body], _ => by
      simp only [plainAll, normalizeForm, dissectParameterList_plain parameters,
        normalize_plain body]

theorem normalizeAll_plainAll : (ds : List Datum) → normalizeAll (plainAll ds) = normalizeAll ds
  | [] => rfl
  | d :: ds => by simp only [plainAll, normalizeAll, normalize_plain d, normalizeAll_plainAll ds]

/-- Arguments are dissected alike.  The recursion takes one element, or a keyword with its value. -/
theorem dissectArguments_plainAll : (ds : List Datum) → (args : Arguments Ast) →
    dissectArguments args (plainAll ds) = dissectArguments args ds
  | [], args => rfl
  | element :: rest, args => by
      rw [plainAll, dissectArguments, dissectArguments, keyword?_plain, normalize_plain element]
      cases element.keyword? with
      | none => simp only [dissectArguments_plainAll rest]
      | some key =>
          match rest with
          | [] => rfl
          | value :: rest' =>
              simp only [plainAll, normalize_plain value, dissectArguments_plainAll rest']

theorem dissectParameterList_plain : (d : Datum) →
    d.plain.dissectParameterList = d.dissectParameterList
  | .list elements => by
      simp only [plain, dissectParameterList, dissectParameters_plainAll elements]
  | .symbol s => by
      have hdescribe := describe_plain (.symbol s)
      simp only [plain] at hdescribe
      simp [plain, dissectParameterList, hdescribe]
  | .string text => by rw [plain]
  | .number n => by rw [plain]

theorem dissectParameters_plainAll : (ds : List Datum) → (group : Group) →
    dissectParameters group (plainAll ds) = dissectParameters group ds
  | [], group => rfl
  | element :: rest, group => by
      rw [plainAll, dissectParameters, dissectParameters, group?_plain,
        dissectParameter_plain element]
      simp only [dissectParameters_plainAll rest]

theorem dissectParameter_plain : (d : Datum) → d.plain.dissectParameter = d.dissectParameter
  | .list [name, value] => by
      simp only [plain, plainAll, dissectParameter, asSymbol_plain, normalize_plain value]
  | .symbol s => by simp [plain, dissectParameter]
  | .string text => by rw [plain]
  | .number n => by rw [plain]
  | .list [] => by rw [plain, plainAll]
  | .list [single] => by
      have herror := shapeError_plainAll [single] (.exactly 2)
      simp only [plainAll] at herror
      simp [plain, plainAll, dissectParameter, herror]
  | .list (first :: second :: third :: rest) => by
      have herror := shapeError_plainAll (first :: second :: third :: rest) (.exactly 2)
      simp only [plainAll] at herror
      simp [plain, plainAll, dissectParameter, herror]

end

variable {d e : Datum} {ds es : List Datum}

theorem Alike.toText_eq (h : d.Alike e) : d.toText = e.toText := by
  rw [← toText_plain d, h.plain_eq, toText_plain]

theorem Alike.normalize_eq (h : d.Alike e) : d.normalize = e.normalize := by
  rw [← normalize_plain d, h.plain_eq, normalize_plain]

theorem AllAlike.dissectArguments_eq (h : AllAlike ds es) (args : Arguments Ast) :
    dissectArguments args ds = dissectArguments args es := by
  rw [← dissectArguments_plainAll ds, h.plainAll_eq, dissectArguments_plainAll]

theorem AllAlike.dissectParameterList_eq (h : AllAlike ds es) :
    (list ds).dissectParameterList = (list es).dissectParameterList := by
  have hlists : (list ds).Alike (list es) := by
    rw [Alike]
    exact h
  rw [← dissectParameterList_plain (list ds), hlists.plain_eq, dissectParameterList_plain]

end Datum

/-! ## The normalizer -/

namespace Normalizer

open ObjectSystem (extendedSystem booted_extendedSystem)

/-- Hygiene contexts have no influence.  On syntax objects whose trees are alike, in one store or in
two, the normalizer gives the same result, the syntax tree or the error with all that it shows, and
so it does on alike elements of a call and of a parameter list.  The written forms of alike objects
are the same. -/
theorem normalize_ignores_contexts {sys : ObjectSystem} (hsys : sys.registry.Booted) :
    ∃ nz : Normalizer,
      (∀ s, ∃ log, (new sys).runFrom s = some (.ok nz, ⟨s.heap, log⟩)) ∧
      (∀ (s t : Store) (x y : Syntax) (d e : Datum), s.heap.Unfolds x d → t.heap.Unfolds y e →
        d.Alike e →
          (nz.normalize x).AnswerAlike (nz.normalize y) s t ∧
          ∃ text, s.heap.toText x = some (.ok text) ∧ t.heap.toText y = some (.ok text)) ∧
      ∀ (s t : Store) (xs ys : List Syntax) (ds es : List Datum), s.heap.UnfoldsAll xs ds →
        t.heap.UnfoldsAll ys es → Datum.AllAlike ds es →
          (nz.arguments xs).AnswerAlike (nz.arguments ys) s t ∧
          (nz.parameters xs).AnswerAlike (nz.parameters ys) s t := by
  obtain ⟨nz, hz, hnew⟩ := exists_ready hsys
  refine ⟨nz, fun s => hnew s.heap s.log, ?_, ?_⟩
  · intro s t x y d e hx hy halike
    have hnormal := hz.answers_normalize hx
    rw [halike.normalize_eq] at hnormal
    have htext := hx.toText_eq
    rw [halike.toText_eq] at htext
    exact ⟨hnormal.alike (hz.answers_normalize hy), e.toText, htext, hy.toText_eq⟩
  · intro s t xs ys ds es hxs hys halike
    have harguments := hz.answers_arguments hxs
    rw [halike.dissectArguments_eq] at harguments
    have hparameters := hz.answers_parameters hxs
    rw [halike.dissectParameterList_eq] at hparameters
    exact ⟨harguments.alike (hz.answers_arguments hys),
      hparameters.alike (hz.answers_parameters hys)⟩

/-- The symbol of this name with the context of its place. -/
def symbolAt (context : Nat → Option HygieneContext) (place : Nat) (name : String) :
    SyntaxSymbol :=
  ⟨⟨name⟩, context place⟩

/-- The lists of `(lambda (&key: (p x)) (f k: p))` and of `(if p)`, each symbol with the context of
its place. -/
def contextLists (context : Nat → Option HygieneContext) : Heap :=
  let at? := fun place name => Syntax.symbol (symbolAt context place name)
  ⟨#[[at? 0 "lambda", .list ⟨1⟩, .list ⟨3⟩],
    [at? 1 "&key:", .list ⟨2⟩],
    [at? 2 "p", at? 3 "x"],
    [at? 4 "f", at? 5 "k:", at? 6 "p"],
    [at? 7 "if", at? 8 "p"]]⟩

/-- The tree of `(lambda (&key: (p x)) (f k: p))`, each symbol with the context of its place. -/
def contextForm (context : Nat → Option HygieneContext) : Datum :=
  let at? := fun place name => Datum.symbol (symbolAt context place name)
  .list [at? 0 "lambda", .list [at? 1 "&key:", .list [at? 2 "p", at? 3 "x"]],
    .list [at? 4 "f", at? 5 "k:", at? 6 "p"]]

/-- The tree of `(if p)`, each symbol with the context of its place. -/
def contextCond (context : Nat → Option HygieneContext) : Datum :=
  .list [.symbol (symbolAt context 7 "if"), .symbol (symbolAt context 8 "p")]

/-- The function that `(lambda (&key: (p x)) (f k: p))` stands for. -/
def keywordFunction : Ast :=
  .lam ⟨[], [], [⟨⟨⟨"p"⟩, .values⟩, some (.ref ⟨⟨"x"⟩, .values⟩)⟩], none, none⟩
    (.app (.ref ⟨⟨"f"⟩, .functions⟩) ⟨[], [(⟨"k"⟩, .ref ⟨⟨"p"⟩, .values⟩)]⟩)

theorem unfolds_contextForm (context : Nat → Option HygieneContext) :
    (contextLists context).Unfolds (.list ⟨0⟩) (contextForm context) := by
  simp [contextLists, contextForm, Heap.Unfolds, Heap.elements, Heap.size]

theorem unfolds_contextCond (context : Nat → Option HygieneContext) :
    (contextLists context).Unfolds (.list ⟨4⟩) (contextCond context) := by
  simp [contextLists, contextCond, Heap.Unfolds, Heap.elements, Heap.size]

/-- With contexts on the head of a special form and on the markers of a parameter and of an
argument, or with none, the function is the same, and so is the error about a form without all its
parts. -/
theorem normalize_contextLists :
    let marked : Store := ⟨contextLists fun place => some ⟨place % 3⟩, #[]⟩
    let bare : Store := ⟨contextLists fun _ => none, #[]⟩
    extendedSystem.registry.Booted ∧ ∃ nz : Normalizer,
      (∀ s, ∃ log, (new extendedSystem).runFrom s = some (.ok nz, ⟨s.heap, log⟩)) ∧
      (∃ log log',
        (nz.normalize (.list ⟨0⟩)).runFrom marked = some (.ok keywordFunction, ⟨marked.heap, log⟩) ∧
        (nz.normalize (.list ⟨0⟩)).runFrom bare = some (.ok keywordFunction, ⟨bare.heap, log'⟩)) ∧
      ∃ log log',
        (nz.arguments [.list ⟨4⟩]).runFrom marked =
          some (.error (.shape "(if p )" (.exactly 4) 2), ⟨marked.heap, log⟩) ∧
        (nz.arguments [.list ⟨4⟩]).runFrom bare =
          some (.error (.shape "(if p )" (.exactly 4) 2), ⟨bare.heap, log'⟩) := by
  intro marked bare
  have hform : (contextForm fun place => some ⟨place % 3⟩).Alike (contextForm fun _ => none) := by
    simp [contextForm, symbolAt, Datum.Alike, Datum.AllAlike]
  have hcond : Datum.AllAlike [contextCond fun place => some ⟨place % 3⟩]
      [contextCond fun _ => none] := by
    simp [contextCond, symbolAt, Datum.Alike, Datum.AllAlike]
  have hconds (context : Nat → Option HygieneContext) :
      (contextLists context).UnfoldsAll [.list ⟨4⟩] [contextCond context] :=
    Heap.unfoldsAll_cons.mpr ⟨unfolds_contextCond context, Heap.unfoldsAll_nil_right.mpr rfl⟩
  obtain ⟨nz, hnew, hnormalize, hdissect⟩ := normalize_ignores_contexts booted_extendedSystem
  have hz : nz.Ready := ready_of_new booted_extendedSystem hnew
  obtain ⟨halike, -⟩ := hnormalize marked bare _ _ _ _ (unfolds_contextForm _)
    (unfolds_contextForm _) hform
  obtain ⟨halike', -⟩ := hdissect marked bare _ _ _ _ (hconds _) (hconds _) hcond
  have hfunction := hz.answers_normalize (unfolds_contextForm fun _ => none)
  have herror := hz.answers_arguments (hconds fun _ => none)
  exact ⟨booted_extendedSystem, nz, hnew, halike.exists_runs hfunction,
    halike'.exists_runs herror⟩

end Normalizer
end LispFront
