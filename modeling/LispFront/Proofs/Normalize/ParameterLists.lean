import LispFront.Proofs.Normalize.Dissecting
import LispFront.Proofs.Normalize.Grouping

/-!
# Parameter lists by place

What the normalizer makes of the elements of a parameter list, said without the order in which it
takes them.  Every element that is no marker stands for a parameter (`Normalizer.StandsFor`) or is
malformed in one of a few ways (`Normalizer.Malformed`), and its group is that of the nearest marker
before it.  The first malformed element is the error, also behind a rest parameter too many; only
if there is none, the number of rest and then of all-keys parameters counts
(`Normalizer.Dissected`).

As an element may be a list that contains itself, there may be no answer: its text may have no end,
or its default may never normalize.  Then there is none for the whole list either, unless an element
before it is malformed.
-/

namespace LispFront

open Normalize
open ObjectSystem (extendedSystem booted_extendedSystem)

/-- What has no answer in a heap has none from any store with it. -/
theorem Exec.silent_ofHeap {α : Type} {operation : Heap → Answer α} {h : Heap}
    (hop : operation h = none) : (ofHeap operation).Silent h := by
  intro log
  simp only [ofHeap, runFrom, hop]

/-- A written form is a text or has no end. -/
theorem Heap.toText_cases (h : Heap) (x : Syntax) :
    h.toText x = none ∨ ∃ text, h.toText x = some (.ok text) := by
  unfold toText Answer.ofOption
  cases h.tree? x with
  | none => exact .inl rfl
  | some d => exact .inr ⟨d.toText, rfl⟩

theorem Heap.describe_cases (h : Heap) (x : Syntax) :
    h.describe x = none ∨ ∃ text, h.describe x = some (.ok text) := by
  unfold describe
  rcases h.toText_cases x with htext | ⟨text, htext⟩
  · exact .inl (by rw [htext]; rfl)
  · exact .inr ⟨x.kind ++ " " ++ text, by rw [htext]; rfl⟩

namespace Normalizer

variable {nz : Normalizer} {s : Store} {x : Syntax} {xs : List Syntax}

/-! ## Elements -/

/-- The parameter that an element stands for, with the lists as they are in the store: a symbol, or
a list of a symbol and a default that normalizes. -/
inductive StandsFor (nz : Normalizer) (s : Store) : Syntax → Parameter Ast → Prop
  | name (name : SyntaxSymbol) : StandsFor nz s (.symbol name) ⟨⟨name.symbol, .values⟩, none⟩
  | defaulted {l : ListRef} {name : SyntaxSymbol} {value : Syntax} {a : Ast} {s' : Store}
      (hl : s.heap.elements l = [.symbol name, value])
      (hvalue : (nz.normalize value).runFrom s = some (.ok a, s')) :
      StandsFor nz s (.list l) ⟨⟨name.symbol, .values⟩, some a⟩

/-- What is wrong with an element that stands for no parameter. -/
inductive Malformed (nz : Normalizer) (s : Store) : Syntax → Error → Prop
  | constant {x : Syntax} {text : String} (hsymbol : ∀ name, x ≠ .symbol name)
      (hlist : ∀ l, x ≠ .list l) (htext : s.heap.describe x = some (.ok text)) :
      Malformed nz s x (.identity "parameter" text)
  | length {l : ListRef} {text : String} (hl : s.heap.length l ≠ 2)
      (htext : s.heap.toText (.list l) = some (.ok text)) :
      Malformed nz s (.list l) (.shape text (.exactly 2) (s.heap.length l))
  | head {l : ListRef} {head value : Syntax} {text : String}
      (hl : s.heap.elements l = [head, value]) (hsymbol : ∀ name, head ≠ .symbol name)
      (htext : s.heap.describe head = some (.ok text)) :
      Malformed nz s (.list l) (.identity "syntax symbol" text)
  | default {l : ListRef} {name : SyntaxSymbol} {value : Syntax} {e : Error} {s' : Store}
      (hl : s.heap.elements l = [.symbol name, value])
      (hvalue : (nz.normalize value).runFrom s = some (.error e, s')) :
      Malformed nz s (.list l) e

/-- Every element that is no marker stands for a parameter. -/
def AllStand (nz : Normalizer) (s : Store) (xs : List Syntax) : Prop :=
  ∀ x ∈ xs, groupOf? x = none → ∃ p, StandsFor nz s x p

/-- What dissecting a parameter list gives. -/
inductive Dissected (nz : Normalizer) (s : Store) (xs : List Syntax) :
    Except Error (Parameters Ast) → Prop
  | ok {ps : Parameters Ast} (hstand : AllStand nz s xs)
      (hgroups : ∀ group, (members groupOf? group xs).Forall₂ (StandsFor nz s) (ps.ofGroup group)) :
      Dissected nz s xs (.ok ps)
  | malformed {before after : List Syntax} {x : Syntax} {e : Error}
      (hxs : xs = before ++ x :: after) (hbefore : AllStand nz s before) (hx : groupOf? x = none)
      (hmalformed : Malformed nz s x e) : Dissected nz s xs (.error e)
  | multipleRest (hstand : AllStand nz s xs) (hrest : 1 < (members groupOf? .rest xs).length) :
      Dissected nz s xs (.error .multipleRest)
  | multipleAllKeys (hstand : AllStand nz s xs)
      (hrest : (members groupOf? .rest xs).length ≤ 1)
      (hall : 1 < (members groupOf? .allKeys xs).length) :
      Dissected nz s xs (.error .multipleAllKeys)

/-! ## What is answered on one element -/

private theorem asSymbol_eq {h : Heap} (hx : ∀ name, x ≠ .symbol name) :
    h.asSymbol x = (do throw (.identity "syntax symbol" (← h.describe x)) : Answer Symbol) := by
  cases x with
  | symbol name => exact absurd rfl (hx name)
  | _ => rfl

private theorem parameter_eq (hsymbol : ∀ name, x ≠ .symbol name) (hlist : ∀ l, x ≠ .list l) :
    nz.parameter nz.normalize x = (do
      let found ← Exec.ofHeap fun h => h.describe x
      throw (.identity "parameter" found) : Exec (Parameter Ast)) := by
  cases x with
  | symbol name => exact absurd rfl (hsymbol name)
  | list l => exact absurd rfl (hlist l)
  | _ => rfl

/-- A list of two elements passes the check of its length. -/
theorem answers_checkLength_two {h : Heap} {l : ListRef} {head value : Syntax}
    (hl : h.elements l = [head, value]) : (checkLength l (.exactly 2)).Answers h (.ok ()) h :=
  Exec.answers_ofHeap (if_pos (by rw [Heap.length, hl]; rfl))

theorem StandsFor.answers (hz : nz.Ready) {p : Parameter Ast} (hx : StandsFor nz s x p) :
    (nz.parameter nz.normalize x).Answers s.heap (.ok p) s.heap := by
  cases hx with
  | name name => exact Exec.answers_pure _ s.heap
  | defaulted hl hvalue =>
      refine (answers_checkLength_two hl).bind_ok ((hz.answers_first hl).bind_ok ?_)
      refine (Exec.answers_ofHeap rfl).bind_ok ((hz.answers_second hl).bind_ok ?_)
      exact ((hz.steady_normalize s.heap _).answers hvalue).bind_ok (Exec.answers_pure _ s.heap)

theorem Malformed.answers (hz : nz.Ready) {e : Error} (hx : Malformed nz s x e) :
    (nz.parameter nz.normalize x).Answers s.heap (.error e) s.heap := by
  cases hx with
  | constant hsymbol hlist htext =>
      rw [parameter_eq hsymbol hlist]
      exact (Exec.answers_ofHeap htext).bind_ok (Exec.answers_throw _ s.heap)
  | @length l text hl htext =>
      have hlength : s.heap.checkLength l (.exactly 2) =
          some (.error (.shape text (.exactly 2) (s.heap.length l))) := by
        rw [Heap.checkLength, if_neg (by simpa [Arity.admits] using hl), Heap.shapeError, htext]
        rfl
      exact (Exec.answers_ofHeap hlength).bind_error
  | @head l head value text hl hsymbol htext =>
      have hhead : s.heap.asSymbol head = some (.error (.identity "syntax symbol" text)) := by
        rw [asSymbol_eq hsymbol, htext]
        rfl
      refine (answers_checkLength_two hl).bind_ok ((hz.answers_first hl).bind_ok ?_)
      exact (Exec.answers_ofHeap hhead).bind_error
  | default hl hvalue =>
      refine (answers_checkLength_two hl).bind_ok ((hz.answers_first hl).bind_ok ?_)
      refine (Exec.answers_ofHeap rfl).bind_ok ((hz.answers_second hl).bind_ok ?_)
      exact ((hz.steady_normalize s.heap _).answers hvalue).bind_error

/-- A list of two elements stands for a parameter, is malformed or has no answer, by its head and
then by what its second element normalizes to. -/
private theorem pair_cases (hz : nz.Ready) (s : Store) {l : ListRef} {head value : Syntax}
    (hl : s.heap.elements l = [head, value]) :
    (∃ p, StandsFor nz s (.list l) p) ∨ (∃ e, Malformed nz s (.list l) e) ∨
      (nz.parameter nz.normalize (.list l)).Silent s.heap := by
  by_cases hsymbol : ∃ name, head = .symbol name
  · obtain ⟨name, rfl⟩ := hsymbol
    rcases hz.steady_normalize s.heap value with ⟨result, hanswers⟩ | hsilent
    · obtain ⟨log, hrun⟩ := hanswers s.log
      cases result with
      | ok a => exact .inl ⟨_, .defaulted hl hrun⟩
      | error e => exact .inr (.inl ⟨e, .default hl hrun⟩)
    · refine .inr (.inr ((answers_checkLength_two hl).silent_bind ?_))
      refine (hz.answers_first hl).silent_bind ((Exec.answers_ofHeap rfl).silent_bind ?_)
      exact (hz.answers_second hl).silent_bind (hsilent.bind _)
  · have hhead : ∀ name, head ≠ .symbol name := fun name hname => hsymbol ⟨name, hname⟩
    rcases s.heap.describe_cases head with htext | ⟨text, htext⟩
    · have hnone : s.heap.asSymbol head = none := by
        rw [asSymbol_eq hhead, htext]
        rfl
      refine .inr (.inr ((answers_checkLength_two hl).silent_bind ?_))
      exact (hz.answers_first hl).silent_bind ((Exec.silent_ofHeap hnone).bind _)
    · exact .inr (.inl ⟨_, .head hl hhead htext⟩)

/-- Every element stands for a parameter, is malformed or has no answer. -/
theorem parameter_cases (hz : nz.Ready) (s : Store) (x : Syntax) :
    (∃ p, StandsFor nz s x p) ∨ (∃ e, Malformed nz s x e) ∨
      (nz.parameter nz.normalize x).Silent s.heap := by
  cases x with
  | symbol name => exact .inl ⟨_, .name name⟩
  | string text =>
      have hx : s.heap.Unfolds (.string text) (.string text) := rfl
      exact .inr (.inl ⟨_, .constant nofun nofun hx.describe_eq⟩)
  | number n =>
      have hx : s.heap.Unfolds (.number n) (.number n) := rfl
      exact .inr (.inl ⟨_, .constant nofun nofun hx.describe_eq⟩)
  | list l =>
      by_cases hlength : s.heap.length l = 2
      · obtain ⟨head, value, hl⟩ := List.length_eq_two.mp hlength
        exact pair_cases hz s hl
      rcases s.heap.toText_cases (.list l) with htext | ⟨text, htext⟩
      · have hnone : s.heap.checkLength l (.exactly 2) = none := by
          rw [Heap.checkLength, if_neg (by simpa [Arity.admits] using hlength),
            Heap.shapeError, htext]
          rfl
        exact .inr (.inr ((Exec.silent_ofHeap hnone).bind _))
      · exact .inr (.inl ⟨_, .length hlength htext⟩)

/-! ## What is answered on all elements -/

theorem AllStand.cons (hx : groupOf? x = none → ∃ p, StandsFor nz s x p)
    (hxs : AllStand nz s xs) : AllStand nz s (x :: xs) := by
  intro y hy hnone
  rcases List.mem_cons.mp hy with rfl | hy
  · exact hx hnone
  · exact hxs y hy hnone

/-- Either all elements stand for parameters or there is a first that does not. -/
theorem allStand_or_first (hz : nz.Ready) (s : Store) (xs : List Syntax) :
    AllStand nz s xs ∨ ∃ before x after, xs = before ++ x :: after ∧ AllStand nz s before ∧
      groupOf? x = none ∧
        ((∃ e, Malformed nz s x e) ∨ (nz.parameter nz.normalize x).Silent s.heap) := by
  induction xs with
  | nil => exact .inl nofun
  | cons x xs ih =>
      have hfirst : (groupOf? x = none → ∃ p, StandsFor nz s x p) ∨ (groupOf? x = none ∧
          ((∃ e, Malformed nz s x e) ∨ (nz.parameter nz.normalize x).Silent s.heap)) := by
        cases hx : groupOf? x with
        | some group => exact .inl nofun
        | none =>
            rcases parameter_cases hz s x with hstands | hbad
            · exact .inl fun _ => hstands
            · exact .inr ⟨rfl, hbad⟩
      rcases hfirst with hstands | ⟨hx, hbad⟩
      · rcases ih with hall | ⟨before, y, after, rfl, hbefore, hy⟩
        · exact .inl (hall.cons hstands)
        · exact .inr ⟨x :: before, y, after, rfl, hbefore.cons hstands, hy⟩
      · exact .inr ⟨[], x, xs, rfl, nofun, hx, hbad⟩

/-- Dissecting takes every element that is no marker, and then counts. -/
theorem answers_dissectParameters {parameter : Syntax → Exec (Parameter Ast)} {h : Heap}
    {f : Syntax → Parameter Ast}
    (hf : ∀ x ∈ xs, groupOf? x = none → (parameter x).Answers h (.ok (f x)) h) :
    (dissectParameters parameter xs).Answers h
      (collectParameters ((groupedFrom groupOf? .required xs).map fun e => (e.1, f e.2))) h := by
  unfold dissectParameters
  rw [groupParameters_eq]
  refine (Exec.answers_mapM (g := fun e => (e.1, f e.2)) fun e he => ?_).bind_ok
    (Exec.answers_ofExcept _ h)
  obtain ⟨hmem, hnone⟩ := mem_groupedFrom he
  exact (hf e.2 hmem hnone).bind_ok (Exec.answers_pure _ h)

section First

variable {before after : List Syntax}

/-- Dissecting gets to the first element that stands for no parameter. -/
private theorem AllStand.exists_grouped (hz : nz.Ready) (hbefore : AllStand nz s before)
    (hx : groupOf? x = none) (after : List Syntax) :
    ∃ group, groupedFrom groupOf? .required (before ++ x :: after) =
        groupedFrom groupOf? .required before ++ (group, x) :: groupedFrom groupOf? group after ∧
      ∀ e ∈ groupedFrom groupOf? .required before, ∃ b, (do
        let p ← nz.parameter nz.normalize e.2
        return (e.1, p) : Exec (Group × Parameter Ast)).Answers s.heap (.ok b) s.heap := by
  refine ⟨groupAfter groupOf? .required before, ?_, fun e he => ?_⟩
  · rw [groupedFrom_append, groupedFrom_cons_of_none hx]
  · obtain ⟨hmem, hnone⟩ := mem_groupedFrom he
    obtain ⟨p, hp⟩ := hbefore e.2 hmem hnone
    exact ⟨(e.1, p), (hp.answers hz).bind_ok (Exec.answers_pure _ s.heap)⟩

theorem AllStand.answers_error (hz : nz.Ready) (hbefore : AllStand nz s before)
    (hx : groupOf? x = none) {e : Error} (hmalformed : Malformed nz s x e) :
    (nz.parameters (before ++ x :: after)).Answers s.heap (.error e) s.heap := by
  obtain ⟨group, hgrouped, hall⟩ := hbefore.exists_grouped hz hx after
  unfold parameters dissectParameters
  rw [groupParameters_eq, hgrouped]
  exact (Exec.answers_mapM_error hall (hmalformed.answers hz).bind_error).bind_error

theorem AllStand.silent (hz : nz.Ready) (hbefore : AllStand nz s before)
    (hx : groupOf? x = none) (hsilent : (nz.parameter nz.normalize x).Silent s.heap) :
    (nz.parameters (before ++ x :: after)).Silent s.heap := by
  obtain ⟨group, hgrouped, hall⟩ := hbefore.exists_grouped hz hx after
  unfold parameters dissectParameters
  rw [groupParameters_eq, hgrouped]
  exact (Exec.silent_mapM hall (hsilent.bind _)).bind _

end First

/-- If every element stands for a parameter, the parameters are collected by the groups of their
places. -/
theorem AllStand.exists_answers (hz : nz.Ready) (hall : AllStand nz s xs) :
    ∃ f : Syntax → Parameter Ast, (∀ x ∈ xs, groupOf? x = none → StandsFor nz s x (f x)) ∧
      ∃ qs, (∀ group, inGroup group qs = (members groupOf? group xs).map f) ∧
        (nz.parameters xs).Answers s.heap (collectParameters qs) s.heap := by
  have hchoice : ∀ x, ∃ p, x ∈ xs → groupOf? x = none → StandsFor nz s x p := by
    intro x
    by_cases hx : x ∈ xs ∧ groupOf? x = none
    · obtain ⟨p, hp⟩ := hall x hx.1 hx.2
      exact ⟨p, fun _ _ => hp⟩
    · exact ⟨⟨⟨⟨""⟩, .values⟩, none⟩, fun hmem hnone => absurd ⟨hmem, hnone⟩ hx⟩
  choose f hf using hchoice
  refine ⟨f, hf, _, fun group => inGroup_groupedFrom f group xs, ?_⟩
  exact answers_dissectParameters fun x hmem hnone => (hf x hmem hnone).answers hz

/-! ## What dissecting gives -/

/-- An element stands for one parameter only. -/
theorem StandsFor.unique (hz : nz.Ready) {p q : Parameter Ast} (hp : StandsFor nz s x p)
    (hq : StandsFor nz s x q) : p = q := by
  obtain ⟨log, hrun⟩ := hp.answers hz s.log
  obtain ⟨log', hrun'⟩ := hq.answers hz s.log
  have heq := hrun.symm.trans hrun'
  simp only [Option.some.injEq, Prod.mk.injEq, Except.ok.injEq] at heq
  exact heq.1

theorem Dissected.answers (hz : nz.Ready) {result : Except Error (Parameters Ast)}
    (hxs : Dissected nz s xs result) : (nz.parameters xs).Answers s.heap result s.heap := by
  cases hxs with
  | @ok ps hstand hgroups =>
      obtain ⟨f, hf, qs, hqs, hanswers⟩ := hstand.exists_answers hz
      have hcollect : collectParameters qs = .ok ps := by
        refine collectParameters_eq_ok fun group => ?_
        have hmap : (members groupOf? group xs).Forall₂ (StandsFor nz s)
            ((members groupOf? group xs).map f) := by
          refine List.forall₂_map_right_iff.mpr (List.forall₂_same.mpr fun x hx => ?_)
          exact hf x (mem_members hx).1 (mem_members hx).2
        rw [hqs]
        exact List.right_unique_forall₂' (fun _ _ _ hp hq => hp.unique hz hq) hmap (hgroups group)
      rwa [hcollect] at hanswers
  | malformed hsplit hbefore hx hmalformed =>
      rw [hsplit]
      exact hbefore.answers_error hz hx hmalformed
  | multipleRest hstand hrest =>
      obtain ⟨f, -, qs, hqs, hanswers⟩ := hstand.exists_answers hz
      rwa [collectParameters_of_multipleRest (by rwa [hqs, List.length_map])] at hanswers
  | multipleAllKeys hstand hrest hall =>
      obtain ⟨f, -, qs, hqs, hanswers⟩ := hstand.exists_answers hz
      rwa [collectParameters_of_multipleAllKeys
        (by rw [hqs, List.length_map]; exact Nat.not_lt.mpr hrest)
        (by rwa [hqs, List.length_map])] at hanswers

/-- If every element stands for a parameter, only the numbers of rest and all-keys parameters are
left to fail. -/
theorem AllStand.exists_dissected_ok (hz : nz.Ready) (hstand : AllStand nz s xs)
    (hrest : (members groupOf? .rest xs).length ≤ 1)
    (hall : (members groupOf? .allKeys xs).length ≤ 1) :
    ∃ ps, Dissected nz s xs (.ok ps) := by
  obtain ⟨f, hf, qs, hqs, -⟩ := hstand.exists_answers hz
  have hrest' : ¬ 1 < (inGroup .rest qs).length := by
    rw [hqs, List.length_map]
    exact Nat.not_lt.mpr hrest
  have hall' : ¬ 1 < (inGroup .allKeys qs).length := by
    rw [hqs, List.length_map]
    exact Nat.not_lt.mpr hall
  obtain ⟨ps, -, hgroups⟩ := exists_collectParameters_eq_ok hrest' hall'
  refine ⟨ps, .ok hstand fun group => ?_⟩
  rw [hgroups, hqs]
  refine List.forall₂_map_right_iff.mpr (List.forall₂_same.mpr fun x hx => ?_)
  exact hf x (mem_members hx).1 (mem_members hx).2

theorem exists_dissected_or_silent (hz : nz.Ready) (s : Store) (xs : List Syntax) :
    (∃ result, Dissected nz s xs result) ∨ (nz.parameters xs).Silent s.heap := by
  rcases allStand_or_first hz s xs with hall | ⟨before, x, after, rfl, hbefore, hx, hbad⟩
  · by_cases hrest : 1 < (members groupOf? .rest xs).length
    · exact .inl ⟨_, .multipleRest hall hrest⟩
    by_cases hkeys : 1 < (members groupOf? .allKeys xs).length
    · exact .inl ⟨_, .multipleAllKeys hall (Nat.not_lt.mp hrest) hkeys⟩
    obtain ⟨ps, hps⟩ := hall.exists_dissected_ok hz (Nat.not_lt.mp hrest) (Nat.not_lt.mp hkeys)
    exact .inl ⟨.ok ps, hps⟩
  rcases hbad with ⟨e, hmalformed⟩ | hsilent
  · exact .inl ⟨.error e, .malformed rfl hbefore hx hmalformed⟩
  · exact .inr (hbefore.silent hz hx hsilent)

/-- What a normalizer answers on a parameter list is what dissecting by place gives. -/
theorem runFrom_parameters_iff (hz : nz.Ready) (s : Store) (xs : List Syntax)
    (result : Except Error (Parameters Ast)) :
    (∃ s', (nz.parameters xs).runFrom s = some (result, s')) ↔ Dissected nz s xs result := by
  constructor
  · rintro ⟨s', hrun⟩
    rcases exists_dissected_or_silent hz s xs with ⟨result', hxs⟩ | hsilent
    · obtain ⟨log, hrun'⟩ := hxs.answers hz s.log
      have heq := hrun.symm.trans hrun'
      simp only [Option.some.injEq, Prod.mk.injEq] at heq
      rw [heq.1]
      exact hxs
    · exact nomatch (hsilent s.log).symm.trans hrun
  · intro hxs
    obtain ⟨log, hrun⟩ := hxs.answers hz s.log
    exact ⟨_, hrun⟩

/-- The elements of a parameter list are dissected by the nearest markers before them.  It succeeds
exactly if every element that is no marker is a symbol, or a list of a symbol and a default that
normalizes, and there are no two rest and no two all-keys parameters.  Then every group has the
parameters of its members in order.  Otherwise the first malformed element is the error, and only if
there is none, a rest and then an all-keys parameter too many. -/
theorem parameters_by_group {sys : ObjectSystem} (hsys : sys.registry.Booted) :
    (∀ x group, groupOf? x = some group ↔
      ∃ name context, (name, group) ∈ groupMarkers ∧ x = .symbol ⟨⟨name⟩, context⟩) ∧
    ∃ nz : Normalizer,
      (∀ s, ∃ log, (new sys).runFrom s = some (.ok nz, ⟨s.heap, log⟩)) ∧
      ∀ (s : Store) (xs : List Syntax),
        ((∃ ps s', (nz.parameters xs).runFrom s = some (.ok ps, s')) ↔
          AllStand nz s xs ∧ (members groupOf? .rest xs).length ≤ 1 ∧
            (members groupOf? .allKeys xs).length ≤ 1) ∧
        (∀ result, (∃ s', (nz.parameters xs).runFrom s = some (result, s')) ↔
          Dissected nz s xs result) ∧
        ∀ result s', (nz.parameters xs).runFrom s = some (result, s') → s'.heap = s.heap := by
  obtain ⟨nz, hz, hnew⟩ := exists_ready hsys
  refine ⟨fun x group => groupOf?_eq_some_iff, nz, fun s => hnew s.heap s.log, fun s xs => ?_⟩
  have hruns := runFrom_parameters_iff hz s xs
  refine ⟨?_, hruns, fun result s' hrun => ?_⟩
  · constructor
    · rintro ⟨ps, hrun⟩
      cases (hruns (.ok ps)).mp hrun with
      | ok hstand hgroups =>
          refine ⟨hstand, ?_, ?_⟩
          · rw [(hgroups .rest).length_eq]
            exact Option.length_toList_le
          · rw [(hgroups .allKeys).length_eq]
            exact Option.length_toList_le
    · rintro ⟨hstand, hrest, hall⟩
      obtain ⟨ps, hps⟩ := hstand.exists_dissected_ok hz hrest hall
      exact ⟨ps, (hruns _).mpr hps⟩
  · obtain ⟨log, hrun'⟩ := ((hruns result).mp ⟨s', hrun⟩).answers hz s.log
    cases hrun.symm.trans hrun'
    rfl

/-- The list `(k v)`. -/
def defaultList : Heap := ⟨#[[.ofSymbol ⟨"k"⟩, .ofSymbol ⟨"v"⟩]]⟩

/-- The elements `a &key: (k v) &rest: r &key: b`, in which the keyword group is opened twice. -/
def alternatingGroups : List Syntax :=
  [.ofSymbol ⟨"a"⟩, .ofSymbol ⟨"&key:"⟩, .list ⟨0⟩, .ofSymbol ⟨"&rest:"⟩, .ofSymbol ⟨"r"⟩,
    .ofSymbol ⟨"&key:"⟩, .ofSymbol ⟨"b"⟩]

/-- The parameters of `a &key: (k v) &rest: r &key: b`. -/
def alternatingParameters : Parameters Ast where
  required := [⟨⟨⟨"a"⟩, .values⟩, none⟩]
  optional := []
  keyword := [⟨⟨⟨"k"⟩, .values⟩, some (.ref ⟨⟨"v"⟩, .values⟩)⟩, ⟨⟨⟨"b"⟩, .values⟩, none⟩]
  rest := some ⟨⟨⟨"r"⟩, .values⟩, none⟩
  allKeys := none

/-- The elements `&rest: r s`. -/
def twoRests : List Syntax := [.ofSymbol ⟨"&rest:"⟩, .ofSymbol ⟨"r"⟩, .ofSymbol ⟨"s"⟩]

private theorem stands_ofSymbol (nz : Normalizer) (s : Store) (name : Symbol) :
    StandsFor nz s (.ofSymbol name) ⟨⟨name, .values⟩, none⟩ := .name ⟨name, none⟩

private theorem allStand_twoRests (nz : Normalizer) (s : Store) : AllStand nz s twoRests := by
  intro x hx _
  simp only [twoRests, List.mem_cons, List.not_mem_nil, or_false] at hx
  rcases hx with rfl | rfl | rfl
  all_goals exact ⟨_, stands_ofSymbol nz s _⟩

private theorem dissected_alternatingGroups (nz : Normalizer) :
    Dissected nz ⟨defaultList, #[]⟩ alternatingGroups (.ok alternatingParameters) := by
  have hl : defaultList.elements ⟨0⟩ = [.symbol ⟨⟨"k"⟩, none⟩, .ofSymbol ⟨"v"⟩] := rfl
  have hvalue : (nz.normalize (.ofSymbol ⟨"v"⟩)).runFrom ⟨defaultList, #[]⟩ =
      some (.ok (.ref ⟨⟨"v"⟩, .values⟩), ⟨defaultList, #[]⟩) := rfl
  have hlist := StandsFor.defaulted hl hvalue
  refine .ok (fun x hx _ => ?_) fun group => ?_
  · simp only [alternatingGroups, List.mem_cons, List.not_mem_nil, or_false] at hx
    rcases hx with rfl | rfl | rfl | rfl | rfl | rfl | rfl
    all_goals first
      | exact ⟨_, hlist⟩
      | exact ⟨_, stands_ofSymbol nz _ _⟩
  · cases group with
    | required =>
        rw [show members groupOf? .required alternatingGroups = [.ofSymbol ⟨"a"⟩] by
          decide +kernel]
        exact .cons (stands_ofSymbol nz _ _) .nil
    | optional =>
        rw [show members groupOf? .optional alternatingGroups = [] by decide +kernel]
        exact .nil
    | keyword =>
        rw [show members groupOf? .keyword alternatingGroups = [.list ⟨0⟩, .ofSymbol ⟨"b"⟩] by
          decide +kernel]
        exact .cons hlist (.cons (stands_ofSymbol nz _ _) .nil)
    | rest =>
        rw [show members groupOf? .rest alternatingGroups = [.ofSymbol ⟨"r"⟩] by decide +kernel]
        exact .cons (stands_ofSymbol nz _ _) .nil
    | allKeys =>
        rw [show members groupOf? .allKeys alternatingGroups = [] by decide +kernel]
        exact .nil

/-- A group that is opened again goes on.  A second rest parameter is an error, but a string behind
it counts more. -/
theorem parameters_alternatingGroups :
    extendedSystem.registry.Booted ∧ ∃ nz : Normalizer,
      (∀ s, ∃ log, (new extendedSystem).runFrom s = some (.ok nz, ⟨s.heap, log⟩)) ∧
      (∃ s', (nz.parameters alternatingGroups).runFrom ⟨defaultList, #[]⟩ =
        some (.ok alternatingParameters, s')) ∧
      (∃ s', (nz.parameters twoRests).runFrom .empty = some (.error .multipleRest, s')) ∧
      ∃ s', (nz.parameters (twoRests ++ [.string "t"])).runFrom .empty =
        some (.error (.identity "parameter" "syntax string \"t\""), s') := by
  obtain ⟨-, nz, hnew, hruns⟩ := parameters_by_group booted_extendedSystem
  refine ⟨booted_extendedSystem, nz, hnew, ?_, ?_, ?_⟩
  · exact ((hruns _ _).2.1 _).mpr (dissected_alternatingGroups nz)
  · refine ((hruns _ _).2.1 _).mpr (.multipleRest (allStand_twoRests nz _) ?_)
    decide +kernel
  · refine ((hruns _ _).2.1 _).mpr (.malformed rfl (allStand_twoRests nz _) rfl ?_)
    exact .constant nofun nofun rfl

end Normalizer
end LispFront
