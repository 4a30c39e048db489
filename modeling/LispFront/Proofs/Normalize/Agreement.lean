import LispFront.Proofs.Normalize.Tree
import LispFront.Proofs.Object.CoreSend
import LispFront.Proofs.Syntax.Unfolding

/-!
# The normalizer agrees with normalization of trees

The normalizer reaches the elements of a list by sends of core generic functions, and looks for the
text of a list in the heap.  In a booted system neither can be told from taking a finite tree apart:
on every syntax object that stands for a tree, the normalizer answers what `Datum.normalize` answers
on the tree, be it a syntax tree or an error.

The induction is on the height of the tree.  `AgreesBelow` is what it assumes of the normalizer of
the parts; there is one lemma for each function that takes a list apart.
-/

namespace LispFront

open Normalize
open ObjectSystem (extendedSystem booted_extendedSystem)

/-! ## Looking at trees in the heap -/

namespace Heap

variable {h : Heap} {x : Syntax} {d : Datum} {l : ListRef} {ds : List Datum}

theorem Unfolds.kind_eq (hx : h.Unfolds x d) : x.kind = d.kind := by
  cases d with
  | list ds =>
      obtain ⟨l, rfl, -⟩ := hx
      rfl
  | _ =>
      rw [Unfolds] at hx
      rw [hx]
      rfl

/-- A syntax object is described as its tree is. -/
theorem Unfolds.describe_eq (hx : h.Unfolds x d) : h.describe x = some (.ok d.describe) := by
  unfold describe
  rw [hx.toText_eq, hx.kind_eq]
  rfl

theorem Unfolds.asSymbol_eq (hx : h.Unfolds x d) : h.asSymbol x = some d.asSymbol := by
  have hdescribe := hx.describe_eq
  cases d with
  | symbol s =>
      rw [Unfolds] at hx
      rw [hx]
      rfl
  | list ds =>
      obtain ⟨l, rfl, -⟩ := hx
      rw [asSymbol, hdescribe]
      · rfl
      · exact nofun
  | _ =>
      rw [Unfolds] at hx
      subst hx
      rw [asSymbol, hdescribe]
      · rfl
      · exact nofun

theorem Unfolds.keywordOf?_eq (hx : h.Unfolds x d) : keywordOf? x = d.keyword? := by
  cases d with
  | list ds =>
      obtain ⟨l, rfl, -⟩ := hx
      rfl
  | _ =>
      rw [Unfolds] at hx
      rw [hx]
      rfl

theorem Unfolds.groupOf?_eq (hx : h.Unfolds x d) : groupOf? x = d.group? := by
  cases d with
  | list ds =>
      obtain ⟨l, rfl, -⟩ := hx
      rfl
  | _ =>
      rw [Unfolds] at hx
      rw [hx]
      rfl

theorem Unfolds.length_eq (hl : h.Unfolds (.list l) (.list ds)) : h.length l = ds.length :=
  (unfolds_list.mp hl).2.length_eq

/-- The error on the length of a list is that on the length of its tree. -/
theorem Unfolds.shapeError_eq {α : Type} (hl : h.Unfolds (.list l) (.list ds))
    (expected : Arity) :
    (h.shapeError l expected : Answer α) = some (.error (Datum.shapeError ds expected)) := by
  unfold shapeError
  rw [hl.toText_eq, hl.length_eq]
  rfl

theorem Unfolds.checkLength_eq_ok (hl : h.Unfolds (.list l) (.list ds)) {expected : Arity}
    (hlength : expected.admits ds.length = true) :
    h.checkLength l expected = some (.ok ()) := by
  unfold checkLength
  rw [hl.length_eq, if_pos hlength]
  rfl

theorem Unfolds.checkLength_eq_error (hl : h.Unfolds (.list l) (.list ds)) {expected : Arity}
    (hlength : ¬ expected.admits ds.length = true) :
    h.checkLength l expected = some (.error (Datum.shapeError ds expected)) := by
  unfold checkLength
  rw [hl.length_eq, if_neg hlength]
  exact hl.shapeError_eq expected

theorem nth_eq {index : Nat} (hx : (h.elements l)[index]? = some x) :
    h.nth l index = some (.ok x) := by
  unfold nth
  rw [hx]
  rfl

/-- A list without elements has no first one. -/
theorem Unfolds.nth_zero_eq (hl : h.Unfolds (.list l) (.list [])) :
    h.nth l 0 = some (.error (Datum.shapeError [] (.atLeast 1))) := by
  have hnone : h.elements l = [] := unfoldsAll_nil_right.mp (unfolds_list.mp hl).2
  unfold nth
  rw [hnone]
  exact hl.shapeError_eq _

end Heap

/-! ## Lists with the wrong number of elements -/

/-- A special form with the wrong number of elements is refused, whatever they are. -/
theorem Datum.normalizeForm_of_not_admits {form : SpecialForm} {ds : List Datum}
    (hlength : ¬ form.arity.admits ds.length = true) :
    normalizeForm form ds = .error (shapeError ds form.arity) := by
  cases form
  -- No form asks for more than four elements, so five shapes of the list are enough.
  all_goals
    rcases ds with _ | ⟨a, _ | ⟨b, _ | ⟨c, _ | ⟨e, _ | ⟨f, rest⟩⟩⟩⟩⟩
    all_goals first
      | rfl
      | exact absurd rfl hlength

/-! ## The elements of a list -/

namespace Normalizer

/-- A normalizer of a booted system, with the generic functions that the bootstrap made. -/
structure Ready (nz : Normalizer) : Prop where
  booted : nz.sys.registry.Booted
  core : ∃ n m, Registry.CoreAt nz.sys.registry n m ∧ nz.generics = Registry.coreGenericsFrom m

variable {nz : Normalizer} {h : Heap} {l : ListRef}

/-- What the four functions for the elements of a list have in common. -/
private theorem Ready.answers_element (hz : nz.Ready) {index : Nat} (hindex : index < 4)
    {generic : GenericId}
    (hgeneric : ∀ m, nz.generics = Registry.coreGenericsFrom m → generic = ⟨m + (index + 1)⟩)
    {result : Except Error Syntax} (hnth : h.nth l index = some result) :
    (nz.element generic l).Answers h result h := by
  obtain ⟨n, m, hat, hgenerics⟩ := hz.core
  have hsend := ObjectSystem.answers_element hz.booted hat hindex hnth
  rw [← hgeneric m hgenerics] at hsend
  unfold element
  cases result with
  | ok x => exact hsend.bind_ok (Exec.answers_ofExcept (.ok x) h)
  | error e => exact hsend.bind_error

/-- The first element of a list that has one. -/
theorem Ready.answers_first (hz : nz.Ready) {x : Syntax} {rest : List Syntax}
    (hl : h.elements l = x :: rest) : (nz.first l).Answers h (.ok x) h := by
  have hnth : h.nth l 0 = some (.ok x) := Heap.nth_eq (by rw [hl]; rfl)
  refine hz.answers_element (by decide) (fun m hm => ?_) hnth
  rw [hm]
  rfl

/-- A list without elements is refused when its first element is asked for. -/
theorem Ready.answers_first_nil (hz : nz.Ready) (hl : h.Unfolds (.list l) (.list [])) :
    (nz.first l).Answers h (.error (Datum.shapeError [] (.atLeast 1))) h := by
  refine hz.answers_element (by decide) (fun m hm => ?_) hl.nth_zero_eq
  rw [hm]
  rfl

theorem Ready.answers_second (hz : nz.Ready) {w x : Syntax} {rest : List Syntax}
    (hl : h.elements l = w :: x :: rest) : (nz.second l).Answers h (.ok x) h := by
  have hnth : h.nth l 1 = some (.ok x) := Heap.nth_eq (by rw [hl]; rfl)
  refine hz.answers_element (by decide) (fun m hm => ?_) hnth
  rw [hm]
  rfl

theorem Ready.answers_third (hz : nz.Ready) {v w x : Syntax} {rest : List Syntax}
    (hl : h.elements l = v :: w :: x :: rest) : (nz.third l).Answers h (.ok x) h := by
  have hnth : h.nth l 2 = some (.ok x) := Heap.nth_eq (by rw [hl]; rfl)
  refine hz.answers_element (by decide) (fun m hm => ?_) hnth
  rw [hm]
  rfl

theorem Ready.answers_fourth (hz : nz.Ready) {u v w x : Syntax} {rest : List Syntax}
    (hl : h.elements l = u :: v :: w :: x :: rest) : (nz.fourth l).Answers h (.ok x) h := by
  have hnth : h.nth l 3 = some (.ok x) := Heap.nth_eq (by rw [hl]; rfl)
  refine hz.answers_element (by decide) (fun m hm => ?_) hnth
  rw [hm]
  rfl

theorem answers_tail (start : Nat) :
    (tail l start).Answers h (.ok (h.tail l start)) h :=
  Exec.answers_ofHeap rfl

/-- The length that a special form asks for is checked on the tree. -/
theorem answers_checkLength_ok {ds : List Datum} (hl : h.Unfolds (.list l) (.list ds))
    {expected : Arity} (hlength : expected.admits ds.length = true) :
    (checkLength l expected).Answers h (.ok ()) h :=
  Exec.answers_ofHeap (hl.checkLength_eq_ok hlength)

theorem answers_checkLength_error {ds : List Datum} (hl : h.Unfolds (.list l) (.list ds))
    {expected : Arity} (hlength : ¬ expected.admits ds.length = true) :
    (checkLength l expected).Answers h (.error (Datum.shapeError ds expected)) h :=
  Exec.answers_ofHeap (hl.checkLength_eq_error hlength)

theorem answers_asSymbol {x : Syntax} {d : Datum} (hx : h.Unfolds x d) :
    (asSymbol x).Answers h d.asSymbol h :=
  Exec.answers_ofHeap hx.asSymbol_eq

/-- Whatever is neither of the expected kinds is described in the error. -/
theorem answers_describe_throw {α : Type} {x : Syntax} {d : Datum} (hx : h.Unfolds x d)
    (expected : String) :
    (do
      let found ← Exec.ofHeap fun h => h.describe x
      throw (.identity expected found) : Exec α).Answers h
        (.error (.identity expected d.describe)) h :=
  (Exec.answers_ofHeap hx.describe_eq).bind_ok (Exec.answers_throw _ h)

/-! ## Arguments and parameters -/

/-- Below a height, `normalize` answers on syntax objects what normalization answers on their
trees. -/
def AgreesBelow (normalize : Syntax → Exec Ast) (h : Heap) (height : Nat) : Prop :=
  ∀ x d, h.Unfolds x d → d.height ≤ height → (normalize x).Answers h d.normalize h

variable {normalize : Syntax → Exec Ast} {height : Nat}

theorem AgreesBelow.mapM (hn : AgreesBelow normalize h height) {xs : List Syntax}
    {ds : List Datum} (hall : h.UnfoldsAll xs ds) (hheight : Datum.heights ds ≤ height) :
    (xs.mapM normalize).Answers h (Datum.normalizeAll ds) h := by
  induction ds generalizing xs with
  | nil =>
      rw [Heap.unfoldsAll_nil_right] at hall
      rw [hall, Datum.normalizeAll]
      exact Exec.answers_pure [] h
  | cons d ds ih =>
      obtain ⟨x, rest, rfl, hx, hrest⟩ := hall
      obtain ⟨hd, hds⟩ := Datum.heights_cons_le.mp hheight
      rw [List.mapM_cons, Datum.normalizeAll]
      refine (hn x d hx hd).bind fun a _ => (ih hrest hds).bind fun as _ => ?_
      exact Exec.answers_pure _ h

/-- Arguments are dissected alike.  The recursion takes one element, or a keyword with its value. -/
theorem AgreesBelow.dissectFrom (hn : AgreesBelow normalize h height) :
    {ds : List Datum} → {xs : List Syntax} → (args : Arguments Ast) → h.UnfoldsAll xs ds →
      Datum.heights ds ≤ height →
      (Normalize.dissectFrom normalize args xs).Answers h (Datum.dissectArguments args ds) h
  | [], xs, args, hall, _ => by
      rw [Heap.unfoldsAll_nil_right] at hall
      rw [hall]
      exact Exec.answers_pure args h
  | d :: ds, xs, args, hall, hheight => by
      obtain ⟨x, rest, rfl, hx, hrest⟩ := hall
      obtain ⟨hd, hds⟩ := Datum.heights_cons_le.mp hheight
      rw [Normalize.dissectFrom, Datum.dissectArguments, hx.keywordOf?_eq]
      cases hkey : d.keyword? with
      | none =>
          refine (hn x d hx hd).bind fun a _ => ?_
          exact hn.dissectFrom _ hrest hds
      | some key =>
          cases ds with
          | nil =>
              rw [Heap.unfoldsAll_nil_right] at hrest
              rw [hrest]
              exact Exec.answers_throw _ h
          | cons value ds =>
              obtain ⟨y, rest', rfl, hy, hrest'⟩ := hrest
              obtain ⟨hvalue, hds'⟩ := Datum.heights_cons_le.mp hds
              refine (hn y value hy hvalue).bind fun a _ => ?_
              exact hn.dissectFrom _ hrest' hds'

/-- A parameter is a name or a list of two; every other list is refused by its length. -/
theorem AgreesBelow.parameter (hn : AgreesBelow normalize h height) (hz : nz.Ready) {x : Syntax}
    {d : Datum} (hx : h.Unfolds x d) (hheight : d.height ≤ height) :
    (nz.parameter normalize x).Answers h d.dissectParameter h := by
  cases d with
  | symbol s =>
      rw [Heap.Unfolds] at hx
      rw [hx, Datum.dissectParameter]
      exact Exec.answers_pure _ h
  | list ds =>
      obtain ⟨l, rfl, hplace, hall⟩ := hx
      have hl : h.Unfolds (.list l) (.list ds) := Heap.unfolds_list.mpr ⟨hplace, hall⟩
      unfold Normalizer.parameter
      match ds, hall with
      -- Only a list of two passes the check of the length.
      | [name, value], hall =>
          obtain ⟨y, rest, hlist, hy, z, rest', rfl, hz', hnil⟩ := hall
          rw [Heap.unfoldsAll_nil_right] at hnil
          subst hnil
          have hvalue : value.height ≤ height := by
            simp only [Datum.height, Datum.heights] at hheight
            omega
          have hfirst := hz.answers_first hlist
          have hsecond := hz.answers_second hlist
          rw [Datum.dissectParameter]
          refine (answers_checkLength_ok hl rfl).bind_ok (hfirst.bind_ok ?_)
          refine (answers_asSymbol hy).bind fun symbol _ => hsecond.bind_ok ?_
          refine (hn z value hz' hvalue).bind fun a _ => ?_
          exact Exec.answers_pure _ h
      | [], _ => exact (answers_checkLength_error hl (by decide)).bind_error
      | [_], _ => exact (answers_checkLength_error hl (by simp [Arity.admits])).bind_error
      | _ :: _ :: _ :: rest, _ =>
          refine (answers_checkLength_error hl ?_).bind_error
          simp [Arity.admits]
  | string text =>
      have hdescribe := answers_describe_throw (α := Parameter Ast) hx "parameter"
      rw [Heap.Unfolds] at hx
      subst hx
      exact hdescribe
  | number k =>
      have hdescribe := answers_describe_throw (α := Parameter Ast) hx "parameter"
      rw [Heap.Unfolds] at hx
      subst hx
      exact hdescribe

theorem AgreesBelow.groupParameters (hn : AgreesBelow normalize h height) (hz : nz.Ready)
    {xs : List Syntax} {ds : List Datum} (group : Group) (hall : h.UnfoldsAll xs ds)
    (hheight : Datum.heights ds ≤ height) :
    (Normalize.groupParameters (nz.parameter normalize) group xs).Answers h
      (Datum.dissectParameters group ds) h := by
  induction ds generalizing xs group with
  | nil =>
      rw [Heap.unfoldsAll_nil_right] at hall
      rw [hall]
      exact Exec.answers_pure [] h
  | cons d ds ih =>
      obtain ⟨x, rest, rfl, hx, hrest⟩ := hall
      obtain ⟨hd, hds⟩ := Datum.heights_cons_le.mp hheight
      rw [Normalize.groupParameters, Datum.dissectParameters, hx.groupOf?_eq]
      cases hgroup : d.group? with
      | some next => exact ih next hrest hds
      | none =>
          refine (hn.parameter hz hx hd).bind fun p _ => ?_
          refine (ih group hrest hds).bind fun ps _ => ?_
          exact Exec.answers_pure _ h

/-- A parameter list is dissected alike, in the order: is it a list, its elements, the groups. -/
theorem AgreesBelow.parameterList (hn : AgreesBelow normalize h height) (hz : nz.Ready)
    {x : Syntax} {d : Datum} (hx : h.Unfolds x d) (hheight : d.height ≤ height) :
    (do
      let parameters ← Exec.ofHeap fun h => h.asList x
      dissectParameters (nz.parameter normalize) (← tail parameters 0) :
        Exec (Parameters Ast)).Answers h d.dissectParameterList h := by
  have hdescribe := hx.describe_eq
  cases d with
  | list ds =>
      obtain ⟨l, rfl, -, hall⟩ := hx
      have hds : Datum.heights ds ≤ height := by
        rw [Datum.height] at hheight
        exact (Nat.le_succ _).trans hheight
      refine (Exec.answers_ofHeap rfl).bind_ok ((answers_tail 0).bind_ok ?_)
      unfold dissectParameters
      rw [Datum.dissectParameterList]
      refine (hn.groupParameters hz .required hall hds).bind fun groups _ => ?_
      exact Exec.answers_ofExcept _ h
  | _ =>
      rw [Heap.Unfolds] at hx
      subst hx
      refine Exec.Answers.bind_error (Exec.answers_ofHeap ?_)
      rw [Heap.asList, hdescribe]
      · rfl
      · exact nofun

/-! ## Special forms and applications -/

/-- A name and its value, from a list of three. -/
theorem AgreesBelow.binding (hn : AgreesBelow normalize h height) (hz : nz.Ready)
    {head name value : Datum} (hl : h.Unfolds (.list l) (.list [head, name, value]))
    (hheight : value.height ≤ height) :
    (nz.binding normalize l).Answers h
      (do
        let name ← name.asSymbol
        return (name, ← value.normalize)) h := by
  obtain ⟨_, x, rest, hlist, _, y, rest', rfl, hy, z, _, rfl, hz', -⟩ := Heap.unfolds_list.mp hl
  have hsecond := hz.answers_second hlist
  have hthird := hz.answers_third hlist
  unfold Normalizer.binding
  refine (answers_checkLength_ok hl rfl).bind_ok (hsecond.bind_ok ?_)
  refine (answers_asSymbol hy).bind fun symbol _ => hthird.bind_ok ?_
  refine (hn z value hz' hheight).bind fun a _ => ?_
  exact Exec.answers_pure _ h

/-- A special form with the wrong number of elements is refused before any part of it is looked
at: every one of them begins with its check of the length. -/
theorem answers_special_of_not_admits {form : SpecialForm} {ds : List Datum}
    (hl : h.Unfolds (.list l) (.list ds)) (hlength : ¬ form.arity.admits ds.length = true) :
    (nz.special normalize l form).Answers h (.error (Datum.shapeError ds form.arity)) h := by
  have hcheck := answers_checkLength_error hl hlength
  -- Definitions and assignments check the length in `binding`, one step further in.
  cases form with
  | defineVariable => exact hcheck.bind_error.bind_error
  | defineFunction => exact hcheck.bind_error.bind_error
  | assignVariable => exact hcheck.bind_error.bind_error
  | assignFunction => exact hcheck.bind_error.bind_error
  | _ => exact hcheck.bind_error

/-- A form that gives a name a value. -/
private theorem AgreesBelow.bound (hn : AgreesBelow normalize h height) (hz : nz.Ready)
    {head name value : Datum} (hl : h.Unfolds (.list l) (.list [head, name, value]))
    (hheight : value.height ≤ height) (make : Symbol → Ast → Ast) :
    (do
      let (name, value) ← nz.binding normalize l
      return make name value : Exec Ast).Answers h
        (do
          let name ← name.asSymbol
          return make name (← value.normalize)) h := by
  have hboth := (hn.binding hz hl hheight).bind (g := fun p => pure (make p.1 p.2))
    fun p _ => Exec.answers_pure (make p.1 p.2) h
  simpa only [bind_assoc, pure_bind] using hboth

/-- The three parts of a conditional, from left to right. -/
private theorem AgreesBelow.conditional (hn : AgreesBelow normalize h height) (hz : nz.Ready)
    {head test consequent alternative : Datum}
    (hl : h.Unfolds (.list l) (.list [head, test, consequent, alternative]))
    (hheight : Datum.heights [head, test, consequent, alternative] ≤ height) :
    (nz.special normalize l .conditional).Answers h
      (Datum.normalizeForm .conditional [head, test, consequent, alternative]) h := by
  obtain ⟨_, w, _, hlist, _, x, _, rfl, hx, y, _, rfl, hy, z, _, rfl, hz', -⟩ :=
    Heap.unfolds_list.mp hl
  have hsecond := hz.answers_second hlist
  have hthird := hz.answers_third hlist
  have hfourth := hz.answers_fourth hlist
  simp only [Datum.heights] at hheight
  unfold Normalizer.special
  rw [Datum.normalizeForm]
  refine (answers_checkLength_ok hl rfl).bind_ok (hsecond.bind_ok ?_)
  refine (hn x test hx (by omega)).bind fun a _ => hthird.bind_ok ?_
  refine (hn y consequent hy (by omega)).bind fun b _ => hfourth.bind_ok ?_
  refine (hn z alternative hz' (by omega)).bind fun c _ => ?_
  exact Exec.answers_pure _ h

/-- An abstraction: its parameter list and then its body. -/
private theorem AgreesBelow.abstraction (hn : AgreesBelow normalize h height) (hz : nz.Ready)
    {head parameters body : Datum}
    (hl : h.Unfolds (.list l) (.list [head, parameters, body]))
    (hheight : Datum.heights [head, parameters, body] ≤ height) :
    (nz.special normalize l .abstraction).Answers h
      (Datum.normalizeForm .abstraction [head, parameters, body]) h := by
  obtain ⟨_, x, _, hlist, _, y, _, rfl, hy, z, _, rfl, hz', -⟩ := Heap.unfolds_list.mp hl
  have hsecond := hz.answers_second hlist
  have hthird := hz.answers_third hlist
  simp only [Datum.heights] at hheight
  have hlambda := (hn.parameterList hz hy (by omega)).bind
    (f := fun parameters => do return Ast.lam parameters (← normalize (← nz.third l)))
    (g := fun parameters => do return Ast.lam parameters (← body.normalize)) fun ps _ =>
      hthird.bind_ok ((hn z body hz' (by omega)).bind fun b _ => Exec.answers_pure _ h)
  unfold Normalizer.special
  rw [Datum.normalizeForm]
  refine (answers_checkLength_ok hl rfl).bind_ok (hsecond.bind_ok ?_)
  simpa only [bind_assoc] using hlambda

/-- Special forms are normalized alike. -/
theorem AgreesBelow.special (hn : AgreesBelow normalize h height) (hz : nz.Ready)
    (form : SpecialForm) {ds : List Datum} (hl : h.Unfolds (.list l) (.list ds))
    (hheight : Datum.heights ds ≤ height) :
    (nz.special normalize l form).Answers h (Datum.normalizeForm form ds) h := by
  -- With the right number of elements each form finds its parts at their places.
  by_cases hlength : form.arity.admits ds.length = true
  · have hall := (Heap.unfolds_list.mp hl).2
    cases form with
    | functionReference =>
        obtain ⟨head, name, rfl⟩ := List.length_eq_two.mp (eq_of_beq hlength)
        obtain ⟨_, _, hlist, _, y, _, rfl, hy, -⟩ := hall
        have hsecond := hz.answers_second hlist
        refine (answers_checkLength_ok hl rfl).bind_ok (hsecond.bind_ok ?_)
        exact (answers_asSymbol hy).bind fun symbol _ => Exec.answers_pure _ h
    | defineVariable =>
        obtain ⟨head, name, value, rfl⟩ := List.length_eq_three.mp (eq_of_beq hlength)
        simp only [Datum.heights] at hheight
        exact hn.bound hz hl (by omega) fun name => .define ⟨name, .values⟩
    | defineFunction =>
        obtain ⟨head, name, value, rfl⟩ := List.length_eq_three.mp (eq_of_beq hlength)
        simp only [Datum.heights] at hheight
        exact hn.bound hz hl (by omega) fun name => .define ⟨name, .functions⟩
    | assignVariable =>
        obtain ⟨head, name, value, rfl⟩ := List.length_eq_three.mp (eq_of_beq hlength)
        simp only [Datum.heights] at hheight
        exact hn.bound hz hl (by omega) fun name => .assign ⟨name, .values⟩
    | assignFunction =>
        obtain ⟨head, name, value, rfl⟩ := List.length_eq_three.mp (eq_of_beq hlength)
        simp only [Datum.heights] at hheight
        exact hn.bound hz hl (by omega) fun name => .assign ⟨name, .values⟩
    | conditional =>
        match ds, hlength with
        | [_, _, _, _], _ => exact hn.conditional hz hl hheight
    | sequence =>
        obtain ⟨head, expressions, rfl⟩ :=
          List.exists_cons_of_length_pos (of_decide_eq_true hlength)
        simp only [Datum.heights] at hheight
        refine (answers_checkLength_ok hl hlength).bind_ok ((answers_tail 1).bind_ok ?_)
        refine (hn.mapM (hall.drop 1) (by simpa using by omega)).bind fun as _ => ?_
        exact Exec.answers_pure _ h
    | call =>
        match ds, hlength with
        | head :: operator :: args, hlength =>
            obtain ⟨_, _, hlist, _, y, rest, rfl, hy, hrest⟩ := hall
            have hsecond := hz.answers_second hlist
            have htail : h.tail l 2 = rest := by
              unfold Heap.tail
              rw [hlist]
              rfl
            simp only [Datum.heights] at hheight
            refine (answers_checkLength_ok hl hlength).bind_ok (hsecond.bind_ok ?_)
            refine (hn y operator hy (by omega)).bind fun a _ => ?_
            refine (answers_tail 2).bind_ok ?_
            rw [htail]
            refine (hn.dissectFrom .empty hrest (by omega)).bind fun as _ => ?_
            exact Exec.answers_pure _ h
    | abstraction =>
        obtain ⟨head, parameters, body, rfl⟩ := List.length_eq_three.mp (eq_of_beq hlength)
        exact hn.abstraction hz hl hheight
  · rw [Datum.normalizeForm_of_not_admits hlength]
    exact answers_special_of_not_admits hl hlength

/-- The application of the symbol at the head of a list. -/
theorem AgreesBelow.application (hn : AgreesBelow normalize h height) (hz : nz.Ready)
    {head : Datum} {parts : List Datum} (hl : h.Unfolds (.list l) (.list (head :: parts)))
    (hheight : Datum.heights parts ≤ height) :
    (nz.application normalize l).Answers h
      (do
        let operator ← head.asSymbol
        return .app (.ref ⟨operator, .functions⟩)
          (← Datum.dissectArguments .empty parts)) h := by
  obtain ⟨-, x, rest, hlist, hx, hrest⟩ := Heap.unfolds_list.mp hl
  have hfirst := hz.answers_first hlist
  have htail : h.tail l 1 = rest := by
    unfold Heap.tail
    rw [hlist]
    rfl
  unfold Normalizer.application
  refine (answers_checkLength_ok hl (by simp [Arity.admits])).bind_ok (hfirst.bind_ok ?_)
  refine (answers_asSymbol hx).bind fun operator _ => ?_
  refine (Exec.answers_trace _ h).bind_ok ((answers_tail 1).bind_ok ?_)
  rw [htail]
  refine (hn.dissectFrom .empty hrest hheight).bind fun as _ => ?_
  exact Exec.answers_pure _ h

/-- Lists are normalized alike: the head has to be a symbol and says what the list is. -/
theorem AgreesBelow.list (hn : AgreesBelow normalize h height) (hz : nz.Ready)
    {ds : List Datum} (hl : h.Unfolds (.list l) (.list ds))
    (hheight : Datum.heights ds ≤ height) :
    (nz.normalizeList normalize l).Answers h (Datum.list ds).normalize h := by
  unfold Normalizer.normalizeList
  cases ds with
  | nil =>
      rw [Datum.normalize]
      exact (hz.answers_first_nil hl).bind_error
  | cons head parts =>
      obtain ⟨-, x, rest, hlist, hx, -⟩ := Heap.unfolds_list.mp hl
      have hfirst := hz.answers_first hlist
      have hparts : Datum.heights parts ≤ height := (Datum.heights_cons_le.mp hheight).2
      rw [Datum.normalize]
      refine hfirst.bind_ok ((answers_asSymbol hx).bind fun operator hoperator => ?_)
      cases SpecialForm.ofSymbol? operator with
      | some form =>
          exact (Exec.answers_trace _ h).bind_ok (hn.special hz form hl hheight)
      | none =>
          have happ := hn.application hz hl hparts
          rw [hoperator] at happ
          exact happ

/-! ## Normalization -/

/-- With enough depth for the tree, normalization within a depth agrees. -/
theorem Ready.agreesBelow (hz : nz.Ready) (h : Heap) (height : Nat) :
    AgreesBelow (nz.normalizeWithin height) h height := by
  -- A list of height `height + 1` is normalized by its parts, whose heights are at most `height`.
  induction height with
  | zero =>
      intro x d hx hheight
      cases d with
      | symbol s =>
          rw [Heap.Unfolds] at hx
          rw [hx]
          exact Exec.answers_pure _ h
      | list ds => exact absurd hheight (Nat.not_succ_le_zero _)
      | _ =>
          have hdescribe := answers_describe_throw (α := Ast) hx "syntax symbol or list"
          rw [Heap.Unfolds] at hx
          subst hx
          exact hdescribe
  | succ height ih =>
      intro x d hx hheight
      cases d with
      | symbol s =>
          rw [Heap.Unfolds] at hx
          rw [hx]
          exact Exec.answers_pure _ h
      | list ds =>
          obtain ⟨l, rfl, hl⟩ := hx
          exact ih.list hz (Heap.unfolds_list.mpr hl) (Nat.le_of_succ_le_succ hheight)
      | _ =>
          have hdescribe := answers_describe_throw (α := Ast) hx "syntax symbol or list"
          rw [Heap.Unfolds] at hx
          subst hx
          exact hdescribe

/-- A ready normalizer agrees with normalization of trees. -/
theorem Ready.answers_normalize (hz : nz.Ready) {x : Syntax} {d : Datum} (hx : h.Unfolds x d) :
    (nz.normalize x).Answers h d.normalize h :=
  Exec.answers_get_bind fun _ => hz.agreesBelow h h.size x d hx hx.height_le_size

/-- At every height, a ready normalizer answers as its trees do. -/
theorem Ready.agreesBelow_normalize (hz : nz.Ready) (h : Heap) (height : Nat) :
    AgreesBelow nz.normalize h height :=
  fun _ _ hx _ => hz.answers_normalize hx

theorem Ready.answers_arguments (hz : nz.Ready) {xs : List Syntax} {ds : List Datum}
    (hall : h.UnfoldsAll xs ds) :
    (nz.arguments xs).Answers h (Datum.dissectArguments .empty ds) h :=
  (hz.agreesBelow_normalize h (Datum.heights ds)).dissectFrom .empty hall le_rfl

theorem Ready.answers_parameters (hz : nz.Ready) {xs : List Syntax} {ds : List Datum}
    (hall : h.UnfoldsAll xs ds) :
    (nz.parameters xs).Answers h (Datum.list ds).dissectParameterList h := by
  have hgroups := (hz.agreesBelow_normalize h (Datum.heights ds)).groupParameters hz .required hall
    le_rfl
  rw [Datum.dissectParameterList]
  exact hgroups.bind fun groups _ => Exec.answers_ofExcept _ h

/-- In a booted system there is a normalizer, and it is ready. -/
theorem exists_ready {sys : ObjectSystem} (hsys : sys.registry.Booted) :
    ∃ nz : Normalizer, nz.Ready ∧ ∀ h, (new sys).Answers h (.ok nz) h := by
  obtain ⟨n, m, hat⟩ := hsys.coreAt
  refine ⟨⟨sys, Registry.coreGenericsFrom m⟩, ⟨hsys, n, m, hat, rfl⟩, fun h => ?_⟩
  unfold new
  rw [hat.getCore_eq]
  refine (Exec.answers_ofExcept _ h).bind_ok ((Exec.answers_trace _ h).bind_ok ?_)
  exact Exec.answers_pure _ h

/-- There is only one normalizer of a booted system, so it is ready. -/
theorem ready_of_new {sys : ObjectSystem} (hsys : sys.registry.Booted) {nz : Normalizer}
    (hnew : ∀ s, ∃ log, (new sys).runFrom s = some (.ok nz, ⟨s.heap, log⟩)) : nz.Ready := by
  obtain ⟨nz', hz, hnew'⟩ := exists_ready hsys
  obtain ⟨hsame, -⟩ := Exec.Answers.unique (fun log => hnew ⟨.empty, log⟩) (hnew' .empty)
  cases hsame
  exact hz

/-- In a booted system, whatever was registered in whatever order, normalizing a syntax object that
stands for a finite tree gives exactly what normalizing the tree gives, and leaves the lists as they
are.  The names that make a list a special form, and the lengths of these lists, are those of the
table. -/
theorem normalize_eq_tree_normalize {sys : ObjectSystem} (hsys : sys.registry.Booted) :
    (∃ nz : Normalizer,
      (∀ s, ∃ log, (new sys).runFrom s = some (.ok nz, ⟨s.heap, log⟩)) ∧
      ∀ (s : Store) (x : Syntax) (d : Datum), s.heap.Unfolds x d →
        ∃ log, (nz.normalize x).runFrom s = some (d.normalize, ⟨s.heap, log⟩)) ∧
    ∀ (s : Symbol) (form : SpecialForm),
      SpecialForm.ofSymbol? s = some form ↔ (s.name, form, form.arity) ∈ SpecialForm.table := by
  obtain ⟨nz, hz, hnew⟩ := exists_ready hsys
  refine ⟨⟨nz, fun s => hnew s.heap s.log, fun s x d hx => ?_⟩,
    fun s form => SpecialForm.ofSymbol?_eq_some_iff⟩
  exact hz.answers_normalize hx s.log

/-- The lists of `(f (g) k: (g))`, in which both `(g)` are one list. -/
def sharedLists : Heap :=
  ⟨#[[.ofSymbol ⟨"f"⟩, .list ⟨1⟩, .ofSymbol ⟨"k:"⟩, .list ⟨1⟩], [.ofSymbol ⟨"g"⟩]]⟩

/-- The tree of `(f (g) k: (g))`. -/
def sharedTree : Datum :=
  .list [.ofSymbol ⟨"f"⟩, .list [.ofSymbol ⟨"g"⟩], .ofSymbol ⟨"k:"⟩, .list [.ofSymbol ⟨"g"⟩]]

/-- The lists of a sequence in which all nine special forms occur,
`(progn (def x (fref f)) (fdef g (lambda (x) x)) (set x (if x x x)) (fset x (funcall x x)))`, and
after them those of `(if () ())`. -/
def programLists : Heap :=
  let x : Syntax := .ofSymbol ⟨"x"⟩
  ⟨#[ [.ofSymbol ⟨"progn"⟩, .list ⟨1⟩, .list ⟨3⟩, .list ⟨6⟩, .list ⟨8⟩],
      [.ofSymbol ⟨"def"⟩, x, .list ⟨2⟩], [.ofSymbol ⟨"fref"⟩, .ofSymbol ⟨"f"⟩],
      [.ofSymbol ⟨"fdef"⟩, .ofSymbol ⟨"g"⟩, .list ⟨4⟩], [.ofSymbol ⟨"lambda"⟩, .list ⟨5⟩, x], [x],
      [.ofSymbol ⟨"set"⟩, x, .list ⟨7⟩], [.ofSymbol ⟨"if"⟩, x, x, x],
      [.ofSymbol ⟨"fset"⟩, x, .list ⟨9⟩], [.ofSymbol ⟨"funcall"⟩, x, x],
      [.ofSymbol ⟨"if"⟩, .list ⟨11⟩, .list ⟨11⟩], [] ]⟩

/-- The tree of the sequence. -/
def programTree : Datum :=
  let x : Datum := .ofSymbol ⟨"x"⟩
  .list [ .ofSymbol ⟨"progn"⟩,
    .list [.ofSymbol ⟨"def"⟩, x, .list [.ofSymbol ⟨"fref"⟩, .ofSymbol ⟨"f"⟩]],
    .list [.ofSymbol ⟨"fdef"⟩, .ofSymbol ⟨"g"⟩, .list [.ofSymbol ⟨"lambda"⟩, .list [x], x]],
    .list [.ofSymbol ⟨"set"⟩, x, .list [.ofSymbol ⟨"if"⟩, x, x, x]],
    .list [.ofSymbol ⟨"fset"⟩, x, .list [.ofSymbol ⟨"funcall"⟩, x, x]] ]

/-- The syntax tree of the sequence. -/
def programAst : Ast :=
  let x : Ast := .ref ⟨⟨"x"⟩, .values⟩
  .seq [ .define ⟨⟨"x"⟩, .values⟩ (.ref ⟨⟨"f"⟩, .functions⟩),
    .define ⟨⟨"g"⟩, .functions⟩ (.lam ⟨[⟨⟨⟨"x"⟩, .values⟩, none⟩], [], [], none, none⟩ x),
    .assign ⟨⟨"x"⟩, .values⟩ (.cond x x x), .assign ⟨⟨"x"⟩, .values⟩ (.app x ⟨[x], []⟩) ]

/-- A list that is shared is normalized at both places, and an added method is never asked.  Each of
the nine special forms has its own syntax tree; `(if () ())` is refused for its length, before its
parts are looked at, which would fail too. -/
theorem normalize_sharedLists :
    extendedSystem.registry.Booted ∧ sharedLists.Unfolds (.list ⟨0⟩) sharedTree ∧
      programLists.Unfolds (.list ⟨0⟩) programTree ∧
      ∃ nz : Normalizer,
        (∀ s, ∃ log, (new extendedSystem).runFrom s = some (.ok nz, ⟨s.heap, log⟩)) ∧
        (∃ log, (nz.normalize (.list ⟨0⟩)).runFrom ⟨sharedLists, #[]⟩ =
          some (.ok (.app (.ref ⟨⟨"f"⟩, .functions⟩)
            ⟨[.app (.ref ⟨⟨"g"⟩, .functions⟩) ⟨[], []⟩],
              [(⟨"k"⟩, .app (.ref ⟨⟨"g"⟩, .functions⟩) ⟨[], []⟩)]⟩), ⟨sharedLists, log⟩)) ∧
        (∃ log, (nz.normalize (.list ⟨0⟩)).runFrom ⟨programLists, #[]⟩ =
          some (.ok programAst, ⟨programLists, log⟩)) ∧
        ∃ log, (nz.normalize (.list ⟨10⟩)).runFrom ⟨programLists, #[]⟩ =
          some (.error (.shape "(if () () )" (.exactly 4) 3), ⟨programLists, log⟩) := by
  have hshared : sharedLists.Unfolds (.list ⟨0⟩) sharedTree := by
    simp [sharedTree, sharedLists, Datum.ofSymbol, Heap.Unfolds, Heap.elements, Heap.size,
      Syntax.ofSymbol]
  have hforms : programLists.Unfolds (.list ⟨0⟩) programTree := by
    simp [programTree, programLists, Datum.ofSymbol, Heap.Unfolds, Heap.elements, Heap.size,
      Syntax.ofSymbol]
  have hshort : programLists.Unfolds (.list ⟨10⟩)
      (.list [.ofSymbol ⟨"if"⟩, .list [], .list []]) := by
    simp [programLists, Datum.ofSymbol, Heap.Unfolds, Heap.elements, Heap.size, Syntax.ofSymbol]
  have htext : (Datum.list [.ofSymbol ⟨"if"⟩, .list [], .list []]).toText = "(if () () )" := by
    decide +kernel
  obtain ⟨⟨nz, hnew, hnormalize⟩, -⟩ := normalize_eq_tree_normalize booted_extendedSystem
  refine ⟨booted_extendedSystem, hshared, hforms, nz, hnew, ?_, ?_, ?_⟩
  · obtain ⟨log, hrun⟩ := hnormalize ⟨sharedLists, #[]⟩ (.list ⟨0⟩) sharedTree hshared
    exact ⟨log, hrun⟩
  · obtain ⟨log, hrun⟩ := hnormalize ⟨programLists, #[]⟩ (.list ⟨0⟩) programTree hforms
    exact ⟨log, hrun⟩
  · obtain ⟨log, hrun⟩ := hnormalize ⟨programLists, #[]⟩ (.list ⟨10⟩) _ hshort
    rw [← htext]
    exact ⟨log, hrun⟩

end Normalizer
end LispFront
