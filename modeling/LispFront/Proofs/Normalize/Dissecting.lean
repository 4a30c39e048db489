import LispFront.Proofs.Normalize.Runs
import LispFront.Proofs.Normalize.Steadiness

/-!
# Dissecting by place

What the normalizer answers on the elements of a call, said without the order in which it takes
them apart.  The runs of markers tell which elements are keys; if everything normalizes, the
arguments are as the elements say place by place, or a key at the end has no value.  Otherwise the
first element that is no key and does not normalize is the answer.

The elements need not stand for finite trees, as an element may be a list that contains itself; the
normalizer never answers on such an element, or fails.  That one run of it stands for all is its
steadiness.
-/

namespace LispFront

namespace Exec

variable {α β : Type} {h : Heap} {f : α → Exec β} {before after : List α} {x : α}

theorem answers_mapM {g : α → β} {xs : List α} (hf : ∀ x ∈ xs, (f x).Answers h (.ok (g x)) h) :
    (xs.mapM f).Answers h (.ok (xs.map g)) h := by
  induction xs with
  | nil => exact answers_pure [] h
  | cons x xs ih =>
      rw [List.mapM_cons]
      refine (hf x List.mem_cons_self).bind_ok ?_
      refine (ih fun y hy => hf y (List.mem_cons_of_mem x hy)).bind_ok ?_
      exact answers_pure _ h

/-- The first element that fails is the answer, whatever comes after it. -/
theorem answers_mapM_error {e : Error} (hbefore : ∀ y ∈ before, ∃ b, (f y).Answers h (.ok b) h)
    (hx : (f x).Answers h (.error e) h) :
    ((before ++ x :: after).mapM f).Answers h (.error e) h := by
  induction before with
  | nil =>
      rw [List.nil_append, List.mapM_cons]
      exact hx.bind_error
  | cons y before ih =>
      obtain ⟨b, hb⟩ := hbefore y List.mem_cons_self
      rw [List.cons_append, List.mapM_cons]
      exact hb.bind_ok (ih fun z hz => hbefore z (List.mem_cons_of_mem y hz)).bind_error

/-- An element that never answers is as far as it goes. -/
theorem silent_mapM (hbefore : ∀ y ∈ before, ∃ b, (f y).Answers h (.ok b) h)
    (hx : (f x).Silent h) : ((before ++ x :: after).mapM f).Silent h := by
  induction before with
  | nil =>
      rw [List.nil_append, List.mapM_cons]
      exact hx.bind _
  | cons y before ih =>
      obtain ⟨b, hb⟩ := hbefore y List.mem_cons_self
      rw [List.cons_append, List.mapM_cons]
      exact hb.silent_bind ((ih fun z hz => hbefore z (List.mem_cons_of_mem y hz)).bind _)

end Exec

/-! ## The first element that fails -/

namespace Normalize

variable {normalize : Syntax → Exec Ast} {h : Heap} {xs : List Syntax} {i : Nat} {x : Syntax}

theorem answers_entry {e : ArgumentEntry Syntax} {a : Ast}
    (he : (normalize e.value).Answers h (.ok a) h) :
    (e.mapM normalize).Answers h (.ok ⟨e.key, a⟩) h :=
  he.bind_ok (Exec.answers_pure _ h)

/-- If all elements normalize, only a key at the end is left to fail. -/
theorem answers_dissectArguments {f : Syntax → Ast}
    (hf : ∀ x ∈ xs, (normalize x).Answers h (.ok (f x)) h) :
    (dissectArguments normalize xs).Answers h
      (settle (lastKey? keywordOf? xs)
        (.ofEntries ((entriesFrom keywordOf? none xs).map (ArgumentEntry.map f)))) h := by
  have hentries : ∀ e ∈ entriesFrom keywordOf? none xs,
      (e.mapM normalize).Answers h (.ok (e.map f)) h := by
    intro e he
    rw [entriesFrom_eq_filterMap] at he
    obtain ⟨i, -, hentry⟩ := List.mem_filterMap.mp he
    have hvalue := (entryAt?_eq_some_iff.mp hentry).2.2
    exact answers_entry (hf e.value (List.mem_of_getElem? hvalue))
  unfold dissectArguments
  rw [dissectFrom_eq, dissectEntries, keyAfter_eq_keyBefore?]
  exact (Exec.answers_mapM hentries).bind_ok (Exec.answers_ofExcept _ h)

/-- If all elements before a place that is no key normalize, dissecting gets to its entry. -/
theorem exists_answered_entries (hx : xs[i]? = some x) (hkey : keyAt? keywordOf? xs i = none)
    (hbefore : ∀ j y, j < i → xs[j]? = some y → keyAt? keywordOf? xs j = none →
      ∃ a, (normalize y).Answers h (.ok a) h) :
    ∃ before after, entriesFrom keywordOf? none xs =
        before ++ ⟨keyBefore? keywordOf? xs i, x⟩ :: after ∧
      ∀ e ∈ before, ∃ b, (e.mapM normalize).Answers h (.ok b) h := by
  obtain ⟨before, after, hentries, hplaces⟩ := exists_entriesFrom_eq_append hx hkey
  refine ⟨before, after, hentries, fun e he => ?_⟩
  obtain ⟨j, hj, hnone, hvalue⟩ := hplaces e he
  obtain ⟨a, ha⟩ := hbefore j e.value hj hvalue hnone
  exact ⟨⟨e.key, a⟩, answers_entry ha⟩

/-- The first element that is no key and fails is the answer. -/
theorem answers_dissectArguments_error {e : Error} (hx : xs[i]? = some x)
    (hkey : keyAt? keywordOf? xs i = none)
    (hbefore : ∀ j y, j < i → xs[j]? = some y → keyAt? keywordOf? xs j = none →
      ∃ a, (normalize y).Answers h (.ok a) h)
    (herror : (normalize x).Answers h (.error e) h) :
    (dissectArguments normalize xs).Answers h (.error e) h := by
  obtain ⟨before, after, hentries, hall⟩ := exists_answered_entries hx hkey hbefore
  have hentry : (ArgumentEntry.mapM normalize ⟨keyBefore? keywordOf? xs i, x⟩).Answers h
      (.error e) h := herror.bind_error
  unfold dissectArguments
  rw [dissectFrom_eq, dissectEntries, hentries]
  exact (Exec.answers_mapM_error hall hentry).bind_error

theorem silent_dissectArguments (hx : xs[i]? = some x) (hkey : keyAt? keywordOf? xs i = none)
    (hbefore : ∀ j y, j < i → xs[j]? = some y → keyAt? keywordOf? xs j = none →
      ∃ a, (normalize y).Answers h (.ok a) h)
    (hsilent : (normalize x).Silent h) : (dissectArguments normalize xs).Silent h := by
  obtain ⟨before, after, hentries, hall⟩ := exists_answered_entries hx hkey hbefore
  have hentry : (ArgumentEntry.mapM normalize ⟨keyBefore? keywordOf? xs i, x⟩).Silent h :=
    hsilent.bind _
  unfold dissectArguments
  rw [dissectFrom_eq, dissectEntries, hentries]
  exact (Exec.silent_mapM hall hentry).bind _

end Normalize

/-! ## The arguments that the normalizer finds -/

namespace Normalizer

open Normalize
open ObjectSystem (extendedSystem booted_extendedSystem)

/-- Which elements of a call are keys is decided by the runs of markers before them, and by that
the whole of dissecting.  If all elements normalize, the only error is a key at the end, which is a
run of odd length there; otherwise the arguments are as the elements say place by place.  If some
element does not normalize, the first of them that is no key decides, also over a key at the end.
-/
theorem arguments_by_runs {sys : ObjectSystem} (hsys : sys.registry.Booted) :
    ∃ nz : Normalizer,
      (∀ s, ∃ log, (new sys).runFrom s = some (.ok nz, ⟨s.heap, log⟩)) ∧
      ∀ (s : Store) (xs : List Syntax),
        ((lastKey? keywordOf? xs).isSome ↔ markersBefore keywordOf? xs xs.length % 2 = 1) ∧
        (∀ f : Syntax → Ast,
          (∀ x ∈ xs, ∃ s', (nz.normalize x).runFrom s = some (.ok (f x), s')) →
            (∀ key, lastKey? keywordOf? xs = some key →
              ∃ log, (nz.arguments xs).runFrom s =
                some (.error (.missingKeywordValue key), ⟨s.heap, log⟩)) ∧
            (lastKey? keywordOf? xs = none →
              ∃ args log, (nz.arguments xs).runFrom s = some (.ok args, ⟨s.heap, log⟩) ∧
                ByPlace keywordOf? xs f args)) ∧
        ∀ i x, xs[i]? = some x → keyAt? keywordOf? xs i = none →
          (∀ j y, j < i → xs[j]? = some y → keyAt? keywordOf? xs j = none →
            ∃ a s', (nz.normalize y).runFrom s = some (.ok a, s')) →
          (∀ e s', (nz.normalize x).runFrom s = some (.error e, s') →
            ∃ log, (nz.arguments xs).runFrom s = some (.error e, ⟨s.heap, log⟩)) ∧
          ((nz.normalize x).runFrom s = none → (nz.arguments xs).runFrom s = none) := by
  obtain ⟨nz, hz, hnew⟩ := exists_ready hsys
  refine ⟨nz, fun s => hnew s.heap s.log, fun s xs => ⟨isSome_keyBefore?_iff le_rfl, ?_, ?_⟩⟩
  · intro f hf
    have hall : ∀ x ∈ xs, (nz.normalize x).Answers s.heap (.ok (f x)) s.heap := by
      intro x hx
      obtain ⟨s', hrun⟩ := hf x hx
      exact (hz.steady_normalize s.heap x).answers hrun
    have hanswers := answers_dissectArguments hall
    constructor
    · intro key hkey
      rw [hkey] at hanswers
      exact hanswers s.log
    · intro hnone
      rw [hnone] at hanswers
      obtain ⟨log, hrun⟩ := hanswers s.log
      exact ⟨_, log, hrun, byPlace_ofEntries hnone f⟩
  · intro i x hx hkey hearlier
    have hbefore : ∀ j y, j < i → xs[j]? = some y → keyAt? keywordOf? xs j = none →
        ∃ a, (nz.normalize y).Answers s.heap (.ok a) s.heap := by
      intro j y hj hy hnone
      obtain ⟨a, s', hrun⟩ := hearlier j y hj hy hnone
      exact ⟨a, (hz.steady_normalize s.heap y).answers hrun⟩
    have hsteady := hz.steady_normalize s.heap x
    constructor
    · intro e s' hrun
      exact answers_dissectArguments_error hx hkey hbefore (hsteady.answers hrun) s.log
    · intro hrun
      exact silent_dissectArguments hx hkey hbefore (hsteady.silent hrun) s.log

/-- The elements `x a: b: c: d a: e`, in which `b:` is the value of `a:`. -/
def mixedElements : List Syntax :=
  [⟨"x"⟩, ⟨"a:"⟩, ⟨"b:"⟩, ⟨"c:"⟩, ⟨"d"⟩, ⟨"a:"⟩, ⟨"e"⟩].map Syntax.ofSymbol

/-- The reference to a variable. -/
def variableOf : Syntax → Ast
  | .symbol s => .ref ⟨s.symbol, .values⟩
  | _ => .seq []

private theorem byPlace_mixedElements {args : Arguments Ast}
    (h : ByPlace keywordOf? mixedElements variableOf args) :
    args.positional = [.ref ⟨⟨"x"⟩, .values⟩] ∧ args.keys = [⟨"a"⟩, ⟨"c"⟩] ∧
      args.keywords.lookup ⟨"a"⟩ = some (.ref ⟨⟨"e"⟩, .values⟩) ∧
      args.keywords.lookup ⟨"c"⟩ = some (.ref ⟨⟨"d"⟩, .values⟩) := by
  have hplain : plainElements keywordOf? mixedElements = [.ofSymbol ⟨"x"⟩] := by decide +kernel
  have hkeys : (keywordsOf keywordOf? mixedElements).eraseDups = [⟨"a"⟩, ⟨"c"⟩] := by
    decide +kernel
  have hlater {i : Nat} {key : Symbol} (hplaces : ∀ j < mixedElements.length, i < j →
      keyAt? keywordOf? mixedElements j ≠ some key) :
      ∀ j, i < j → keyAt? keywordOf? mixedElements j ≠ some key :=
    fun j hj hkey => hplaces j (lt_length_of_keyAt? hkey) hj hkey
  obtain ⟨x, hx, ha⟩ := h.value 5 ⟨"a"⟩ (by decide +kernel) (hlater (by decide +kernel))
  obtain ⟨y, hy, hc⟩ := h.value 3 ⟨"c"⟩ (by decide +kernel) (hlater (by decide +kernel))
  cases hx
  cases hy
  exact ⟨h.positional.trans (congrArg (List.map variableOf) hplain), h.keys.trans hkeys, ha, hc⟩

/-- A marker in a run of even length is a key, in one of odd length it is a value; the last key of a
name decides.  Cut off after `c:`, the elements end in a key, and that counts less than an element
before it that does not normalize. -/
theorem arguments_mixedElements :
    extendedSystem.registry.Booted ∧ ∃ nz : Normalizer,
      (∀ s, ∃ log, (new extendedSystem).runFrom s = some (.ok nz, ⟨s.heap, log⟩)) ∧
      (∃ args log, (nz.arguments mixedElements).runFrom .empty = some (.ok args, ⟨.empty, log⟩) ∧
        args.positional = [.ref ⟨⟨"x"⟩, .values⟩] ∧ args.keys = [⟨"a"⟩, ⟨"c"⟩] ∧
        args.keywords.lookup ⟨"a"⟩ = some (.ref ⟨⟨"e"⟩, .values⟩) ∧
        args.keywords.lookup ⟨"c"⟩ = some (.ref ⟨⟨"d"⟩, .values⟩)) ∧
      (∃ log, (nz.arguments (mixedElements.take 4)).runFrom .empty =
        some (.error (.missingKeywordValue ⟨"c"⟩), ⟨.empty, log⟩)) ∧
      ∃ log, (nz.arguments (.string "s" :: mixedElements.take 4)).runFrom .empty =
        some (.error (.identity "syntax symbol or list" "syntax string \"s\""),
          ⟨.empty, log⟩) := by
  obtain ⟨nz, hnew, hruns⟩ := arguments_by_runs booted_extendedSystem
  have hvariable : ∀ x ∈ mixedElements,
      ∃ s', (nz.normalize x).runFrom .empty = some (.ok (variableOf x), s') := by
    intro x hx
    obtain ⟨s, -, rfl⟩ := List.mem_map.mp hx
    exact ⟨.empty, rfl⟩
  refine ⟨booted_extendedSystem, nz, hnew, ?_, ?_, ?_⟩
  · obtain ⟨-, hok, -⟩ := hruns .empty mixedElements
    obtain ⟨args, log, hrun, hplace⟩ := (hok variableOf hvariable).2 (by decide +kernel)
    exact ⟨args, log, hrun, byPlace_mixedElements hplace⟩
  · obtain ⟨-, hok, -⟩ := hruns .empty (mixedElements.take 4)
    exact (hok variableOf fun x hx => hvariable x (List.mem_of_mem_take hx)).1 ⟨"c"⟩
      (by decide +kernel)
  · obtain ⟨-, -, herror⟩ := hruns .empty (.string "s" :: mixedElements.take 4)
    exact (herror 0 (.string "s") rfl (by decide +kernel) fun j y hj => nomatch hj).1 _ .empty rfl

end Normalizer
end LispFront
