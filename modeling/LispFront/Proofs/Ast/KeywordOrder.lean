import LispFront.Proofs.Ast.Sameness
import Mathlib.Data.List.Sort
import Mathlib.Data.String.Basic

/-!
# The order of keywords

Equality of syntax trees is equality up to the order in which the keyword arguments of a call are
written.  `Ast.sorted` puts them in the order of their names, at every node; two trees with distinct
keywords are the same exactly when they are sorted into one tree.

`same` compares the keywords of a call by their number and by looking up those of the one in the
other.  With distinct keywords that makes the one list a permutation of the other
(`Arguments.perm_map_iff`), and sorting by name removes nothing but the order
(`Arguments.sortByName_eq_iff`).  So one tree can be told from another place by place once both are
sorted, which is the induction of `Ast.sameSorts`.
-/

namespace LispFront

/-! ## Keywords by name -/

namespace Arguments

variable {α β : Type} {xs ys : List (Symbol × α)}

/-- Keyword arguments in the order of their names. -/
def sortByName (keywords : List (Symbol × α)) : List (Symbol × α) :=
  keywords.insertionSort fun e f => e.1.name ≤ f.1.name

theorem perm_sortByName (xs : List (Symbol × α)) : (sortByName xs).Perm xs :=
  List.perm_insertionSort _ xs

theorem pairwise_sortByName (xs : List (Symbol × α)) :
    (sortByName xs).Pairwise fun e f => e.1.name ≤ f.1.name := by
  have htotal : Std.Total fun e f : Symbol × α => e.1.name ≤ f.1.name :=
    ⟨fun e f => le_total e.1.name f.1.name⟩
  have htrans : IsTrans (Symbol × α) fun e f => e.1.name ≤ f.1.name :=
    ⟨fun _ _ _ => le_trans⟩
  exact List.pairwise_insertionSort _ xs

/-- With distinct keywords, sorting forgets the order and nothing else. -/
theorem sortByName_eq_iff (hxs : (xs.map Prod.fst).Nodup) :
    sortByName xs = sortByName ys ↔ xs.Perm ys := by
  constructor
  · intro h
    have hsorted : xs.Perm (sortByName ys) := h ▸ (perm_sortByName xs).symm
    exact hsorted.trans (perm_sortByName ys)
  · intro h
    have hperm : (sortByName xs).Perm (sortByName ys) :=
      (perm_sortByName xs).trans (h.trans (perm_sortByName ys).symm)
    refine hperm.eq_of_pairwise (fun e f he hf hle hle' => ?_) (pairwise_sortByName xs)
      (pairwise_sortByName ys)
    -- Both entries stand in `xs`, where one name has one entry.
    have he' : e ∈ xs := (perm_sortByName xs).mem_iff.mp he
    have hf' : f ∈ xs := h.mem_iff.mpr ((perm_sortByName ys).mem_iff.mp hf)
    have hname : e.1.name = f.1.name := le_antisymm hle hle'
    exact List.inj_on_of_nodup_map hxs he' hf' (congrArg Symbol.mk hname)

theorem mem_of_lookup {key : Symbol} {a : α} (h : xs.lookup key = some a) : (key, a) ∈ xs := by
  obtain ⟨before, after, rfl, -⟩ := List.lookup_eq_some_iff.mp h
  exact List.mem_append_right before List.mem_cons_self

/-- Two lists of distinct keywords are of one length, and every value of the one is found in the
other, exactly when the one is a permutation of the other.  Values are compared by what they are
mapped to. -/
theorem perm_map_iff {R : α → α → Prop} {f : α → β} (hxs : (xs.map Prod.fst).Nodup)
    (hys : (ys.map Prod.fst).Nodup)
    (hR : ∀ e ∈ xs, ∀ e' ∈ ys, R e.2 e'.2 ↔ f e.2 = f e'.2) :
    (xs.length = ys.length ∧ ∀ e ∈ xs, ∃ b, ys.lookup e.1 = some b ∧ R e.2 b) ↔
      (xs.map (Prod.map id f)).Perm (ys.map (Prod.map id f)) := by
  constructor
  · rintro ⟨hcount, hfound⟩
    have hdistinct : (xs.map (Prod.map id f)).Nodup := by
      refine List.Nodup.of_map Prod.fst ?_
      rwa [List.map_map]
    have hsubset : xs.map (Prod.map id f) ⊆ ys.map (Prod.map id f) := by
      intro e he
      obtain ⟨⟨key, a⟩, ha, rfl⟩ := List.mem_map.mp he
      obtain ⟨b, hb, hab⟩ := hfound (key, a) ha
      have hmem : (key, b) ∈ ys := mem_of_lookup hb
      refine List.mem_map.mpr ⟨(key, b), hmem, ?_⟩
      rw [Prod.map_apply, Prod.map_apply, (hR (key, a) ha (key, b) hmem).mp hab]
    -- As many keywords, all of them there: none is left over.
    refine (List.subperm_of_subset hdistinct hsubset).perm_of_length_le ?_
    rw [List.length_map, List.length_map, hcount]
  · intro h
    refine ⟨by simpa using h.length_eq, fun e he => ?_⟩
    have hmem := h.mem_iff.mp (List.mem_map_of_mem he)
    obtain ⟨e', he', heq⟩ := List.mem_map.mp hmem
    obtain ⟨hkey, hvalue⟩ : e'.1 = e.1 ∧ f e'.2 = f e.2 := Prod.mk.inj heq
    refine ⟨e'.2, ?_, (hR e he e' he').mpr hvalue.symm⟩
    have hkeys : (Arguments.mk [] ys).keys.Nodup := hys
    rw [← hkey]
    exact lookup_of_mem hkeys he'

end Arguments

namespace Ast

open Arguments (sortByName)

/-! ## Sorted trees -/

mutual

/-- The tree with the keyword arguments of every call in the order of their names. -/
def sorted : Ast → Ast
  | .ref id => .ref id
  | .define id value => .define id value.sorted
  | .assign id value => .assign id value.sorted
  | .cond test consequent alternative => .cond test.sorted consequent.sorted alternative.sorted
  | .seq expressions => .seq (sortedAll expressions)
  | .app operator ⟨positional, keywords⟩ =>
    .app operator.sorted ⟨sortedAll positional, sortByName (sortedValues keywords)⟩
  | .lam ⟨required, optional, keyword, rest, allKeys⟩ body =>
    .lam ⟨sortedParameters required, sortedParameters optional, sortedParameters keyword,
      sortedParameter? rest, sortedParameter? allKeys⟩ body.sorted

/-- Every tree of a list sorted. -/
def sortedAll : List Ast → List Ast
  | [] => []
  | a :: rest => a.sorted :: sortedAll rest

/-- Keyword arguments in their order, with every value sorted. -/
def sortedValues : List (Symbol × Ast) → List (Symbol × Ast)
  | [] => []
  | (key, value) :: rest => (key, value.sorted) :: sortedValues rest

/-- Parameters with every default value sorted. -/
def sortedParameters : List (Parameter Ast) → List (Parameter Ast)
  | [] => []
  | ⟨id, default⟩ :: rest => ⟨id, sorted? default⟩ :: sortedParameters rest

/-- A parameter that may be absent, with its default value sorted. -/
def sortedParameter? : Option (Parameter Ast) → Option (Parameter Ast)
  | none => none
  | some ⟨id, default⟩ => some ⟨id, sorted? default⟩

/-- A tree that may be absent, sorted. -/
def sorted? : Option Ast → Option Ast
  | none => none
  | some a => some a.sorted

end

/-- A parameter with its default value sorted. -/
def sortedParameter (p : Parameter Ast) : Parameter Ast := ⟨p.id, p.default.map sorted⟩

theorem sortedAll_eq_map (as : List Ast) : sortedAll as = as.map sorted := by
  induction as with
  | nil => rw [sortedAll, List.map_nil]
  | cons a as ih => rw [sortedAll, ih, List.map_cons]

theorem sortedValues_eq_map (keywords : List (Symbol × Ast)) :
    sortedValues keywords = keywords.map (Prod.map id sorted) := by
  induction keywords with
  | nil => rw [sortedValues, List.map_nil]
  | cons entry keywords ih => rw [sortedValues, ih, List.map_cons, Prod.map, id]

theorem sorted?_eq_map (a : Option Ast) : sorted? a = a.map sorted := by
  cases a with
  | none => rw [sorted?, Option.map_none]
  | some a => rw [sorted?, Option.map_some]

theorem sortedParameters_eq_map (ps : List (Parameter Ast)) :
    sortedParameters ps = ps.map sortedParameter := by
  induction ps with
  | nil => rw [sortedParameters, List.map_nil]
  | cons p ps ih => rw [sortedParameters, ih, sorted?_eq_map, List.map_cons, sortedParameter]

theorem sortedParameter?_eq_map (p : Option (Parameter Ast)) :
    sortedParameter? p = p.map sortedParameter := by
  cases p with
  | none => rw [sortedParameter?, Option.map_none]
  | some p => rw [sortedParameter?, sorted?_eq_map, Option.map_some, sortedParameter]

/-! ## Places that are compared in order -/

section Places

variable {α β : Type} {R : α → α → Prop} {f : α → β}

theorem forall₂_iff_map_eq {xs ys : List α} (hR : ∀ x ∈ xs, ∀ y ∈ ys, R x y ↔ f x = f y) :
    List.Forall₂ R xs ys ↔ xs.map f = ys.map f := by
  induction xs generalizing ys with
  | nil => cases ys <;> simp
  | cons x xs ih =>
      cases ys with
      | nil => simp
      | cons y ys =>
          have hrest := ih fun x' hx y' hy =>
            hR x' (List.mem_cons_of_mem x hx) y' (List.mem_cons_of_mem y hy)
          rw [List.forall₂_cons, List.map_cons, List.map_cons, List.cons.injEq, hrest,
            hR x List.mem_cons_self y List.mem_cons_self]

theorem rel_iff_map_eq {x y : Option α} (hR : ∀ a ∈ x, ∀ b ∈ y, R a b ↔ f a = f b) :
    Option.Rel R x y ↔ x.map f = y.map f := by
  cases x with
  | none => cases y <;> simp
  | some a =>
      cases y with
      | none => simp
      | some b =>
          rw [Option.rel_some_some, hR a rfl b rfl, Option.map_some, Option.map_some,
            Option.some.injEq]

end Places

/-! ## Nodes -/

theorem sorted_app (operator : Ast) (args : Arguments Ast) :
    (app operator args).sorted =
      app operator.sorted ⟨args.positional.map sorted,
        sortByName (args.keywords.map (Prod.map id sorted))⟩ := by
  rw [sorted, sortedAll_eq_map, sortedValues_eq_map]

/-- Parameters of all groups with every default value sorted. -/
def sortedGroups (ps : Parameters Ast) : Parameters Ast where
  required := ps.required.map sortedParameter
  optional := ps.optional.map sortedParameter
  keyword := ps.keyword.map sortedParameter
  rest := ps.rest.map sortedParameter
  allKeys := ps.allKeys.map sortedParameter

theorem sorted_lam (ps : Parameters Ast) (body : Ast) :
    (lam ps body).sorted = lam (sortedGroups ps) body.sorted := by
  rw [sorted, sortedParameters_eq_map, sortedParameters_eq_map, sortedParameters_eq_map,
    sortedParameter?_eq_map, sortedParameter?_eq_map, sortedGroups]

/-- The tree is the same as another with distinct keywords exactly when both are sorted into one
tree. -/
def SameSorts (a : Ast) : Prop :=
  ∀ b : Ast, b.HasDistinctKeywords → (a.Same b ↔ a.sorted = b.sorted)

theorem HasDistinctKeywords.of_mem_children {a b : Ast} (h : a.HasDistinctKeywords)
    (hb : b ∈ a.children) : b.HasDistinctKeywords :=
  (everywhere_iff.mp h).2 b hb

variable {value test consequent alternative operator body : Ast} {expressions : List Ast}
  {args : Arguments Ast} {ps : Parameters Ast}

-- Nodes of two kinds are told apart by what they are compared to and what they are sorted to.
attribute [local simp] Same same sorted

theorem sameSorts_ref (id : Identifier) : (ref id).SameSorts := by
  intro b _
  cases b <;> simp

theorem sameSorts_define (id : Identifier) (hvalue : value.SameSorts) :
    (define id value).SameSorts := by
  intro b hb
  cases b with
  | define id' value' =>
      have hvalue' := hvalue value' (hb.of_mem_children List.mem_cons_self)
      simpa using fun _ => hvalue'
  | _ => simp

theorem sameSorts_assign (id : Identifier) (hvalue : value.SameSorts) :
    (assign id value).SameSorts := by
  intro b hb
  cases b with
  | assign id' value' =>
      have hvalue' := hvalue value' (hb.of_mem_children List.mem_cons_self)
      simpa using fun _ => hvalue'
  | _ => simp

theorem sameSorts_cond (htest : test.SameSorts) (hconsequent : consequent.SameSorts)
    (halternative : alternative.SameSorts) : (cond test consequent alternative).SameSorts := by
  intro b hb
  cases b with
  | cond test' consequent' alternative' =>
      have htest' := htest test' (hb.of_mem_children (by simp [children]))
      have hconsequent' := hconsequent consequent' (hb.of_mem_children (by simp [children]))
      have halternative' := halternative alternative' (hb.of_mem_children (by simp [children]))
      have hsame : (cond test consequent alternative).Same
            (cond test' consequent' alternative') ↔
          test.Same test' ∧ consequent.Same consequent' ∧ alternative.Same alternative' := by
        simp [and_assoc]
      rw [hsame, htest', hconsequent', halternative', sorted, sorted, cond.injEq]
  | _ => simp

theorem sameSorts_seq (hall : ∀ a ∈ expressions, a.SameSorts) : (seq expressions).SameSorts := by
  intro b hb
  cases b with
  | seq expressions' =>
      have hplaces : List.Forall₂ Same expressions expressions' ↔
          expressions.map sorted = expressions'.map sorted :=
        forall₂_iff_map_eq fun a ha b hb' => hall a ha b (hb.of_mem_children hb')
      rw [same_seq_iff, hplaces, sorted, sorted, sortedAll_eq_map, sortedAll_eq_map, seq.injEq]
  | _ => simp

/-- Calls compare their keywords by name, and the sorted lists are one exactly then. -/
theorem sameSorts_app (hdistinct : args.keys.Nodup) (hoperator : operator.SameSorts)
    (hvalues : ∀ a ∈ args.values, a.SameSorts) : (app operator args).SameSorts := by
  intro b hb
  cases b with
  | app operator' args' =>
      have hoperator' := hoperator operator' (hb.of_mem_children List.mem_cons_self)
      have hvalues' : ∀ a ∈ args.values, ∀ b ∈ args'.values, a.Same b ↔ a.sorted = b.sorted :=
        fun a ha b hb' => hvalues a ha b (hb.of_mem_children (List.mem_cons_of_mem _ hb'))
      have hdistinct' : args'.keys.Nodup := (everywhere_iff.mp hb).1
      have hpositional : List.Forall₂ Same args.positional args'.positional ↔
          args.positional.map sorted = args'.positional.map sorted :=
        forall₂_iff_map_eq fun a ha b hb' =>
          hvalues' a (Arguments.mem_values_of_positional ha) b
            (Arguments.mem_values_of_positional hb')
      have hkeywords := Arguments.perm_map_iff (R := Same) (f := sorted) hdistinct hdistinct'
        fun e he e' he' => hvalues' e.2 (Arguments.mem_values_of_keywords he) e'.2
          (Arguments.mem_values_of_keywords he')
      have hsorted : ((args.keywords.map (Prod.map id sorted)).map Prod.fst).Nodup := by
        rwa [List.map_map]
      rw [same_app_iff, hoperator', sorted_app, sorted_app, app.injEq, Arguments.mk.injEq,
        Arguments.sortByName_eq_iff hsorted, ← hkeywords, ← hpositional]
      exact and_congr_right fun _ =>
        ⟨fun h => ⟨h.positional, h.count, h.keywords⟩, fun h => ⟨h.1, h.2.1, h.2.2⟩⟩
  | _ => simp

theorem sameParameter_iff_sorted_eq {p q : Parameter Ast}
    (hdefaults : ∀ a, p.default = some a → ∀ b, q.default = some b →
      (a.Same b ↔ a.sorted = b.sorted)) :
    SameParameter p q ↔ sortedParameter p = sortedParameter q := by
  have hdefault := rel_iff_map_eq (R := Same) (f := sorted) (x := p.default) (y := q.default)
    hdefaults
  rw [sortedParameter, sortedParameter, Parameter.mk.injEq, ← hdefault]
  exact ⟨fun h => ⟨h.id, h.default⟩, fun h => ⟨h.1, h.2⟩⟩

theorem sameParameters_iff_sorted_eq {qs : Parameters Ast}
    (hall : ∀ p ∈ ps.all, ∀ q ∈ qs.all,
      (SameParameter p q ↔ sortedParameter p = sortedParameter q)) :
    SameParameters ps qs ↔ sortedGroups ps = sortedGroups qs := by
  have hlist {group group' : List (Parameter Ast)} (hgroup : ∀ p ∈ group, p ∈ ps.all)
      (hgroup' : ∀ q ∈ group', q ∈ qs.all) :
      List.Forall₂ SameParameter group group' ↔
        group.map sortedParameter = group'.map sortedParameter :=
    forall₂_iff_map_eq fun p hp q hq => hall p (hgroup p hp) q (hgroup' q hq)
  have hsingle {group group' : Option (Parameter Ast)} (hgroup : ∀ p ∈ group, p ∈ ps.all)
      (hgroup' : ∀ q ∈ group', q ∈ qs.all) :
      Option.Rel SameParameter group group' ↔
        group.map sortedParameter = group'.map sortedParameter :=
    rel_iff_map_eq fun p hp q hq => hall p (hgroup p hp) q (hgroup' q hq)
  have hrequired := hlist (fun _ => Parameters.mem_all_of_required)
    fun _ => Parameters.mem_all_of_required
  have hoptional := hlist (fun _ => Parameters.mem_all_of_optional)
    fun _ => Parameters.mem_all_of_optional
  have hkeyword := hlist (fun _ => Parameters.mem_all_of_keyword)
    fun _ => Parameters.mem_all_of_keyword
  have hrest := hsingle (fun _ => Parameters.mem_all_of_rest)
    fun _ => Parameters.mem_all_of_rest
  have hallKeys := hsingle (fun _ => Parameters.mem_all_of_allKeys)
    fun _ => Parameters.mem_all_of_allKeys
  rw [sortedGroups, sortedGroups, Parameters.mk.injEq, ← hrequired, ← hoptional, ← hkeyword,
    ← hrest, ← hallKeys]
  exact ⟨fun h => ⟨h.required, h.optional, h.keyword, h.rest, h.allKeys⟩,
    fun h => ⟨h.1, h.2.1, h.2.2.1, h.2.2.2.1, h.2.2.2.2⟩⟩

theorem sameSorts_lam (hdefaults : ∀ p ∈ ps.all, ∀ a, p.default = some a → a.SameSorts)
    (hbody : body.SameSorts) : (lam ps body).SameSorts := by
  intro b hb
  cases b with
  | lam qs body' =>
      have hbody' := hbody body' (hb.of_mem_children body_mem_children)
      have hparameters : SameParameters ps qs ↔ sortedGroups ps = sortedGroups qs :=
        sameParameters_iff_sorted_eq fun p hp q hq => sameParameter_iff_sorted_eq fun a ha b hb' =>
          hdefaults p hp a ha b (hb.of_mem_children (default_mem_children hq hb'))
      rw [same_lam_iff, hparameters, hbody', sorted_lam, sorted_lam, lam.injEq]
  | _ => simp

/-! ## Trees -/

/-- Trees with distinct keywords are the same exactly when they are sorted into one tree. -/
theorem sameSorts {a : Ast} (h : a.HasDistinctKeywords) : a.SameSorts := by
  induction h with
  | @node a here _ ih =>
      cases a with
      | ref id => exact sameSorts_ref id
      | define id value => exact sameSorts_define id (ih value List.mem_cons_self)
      | assign id value => exact sameSorts_assign id (ih value List.mem_cons_self)
      | cond test consequent alternative =>
          exact sameSorts_cond (ih test (by simp [children])) (ih consequent (by simp [children]))
            (ih alternative (by simp [children]))
      | seq expressions => exact sameSorts_seq ih
      | app operator args =>
          exact sameSorts_app here (ih operator List.mem_cons_self) fun a ha =>
            ih a (List.mem_cons_of_mem operator ha)
      | lam ps body =>
          exact sameSorts_lam (fun p hp a ha => ih a (default_mem_children hp ha))
            (ih body body_mem_children)

/-- Equality of syntax trees is equality of what they are sorted into: it looks past the order of
keyword arguments, at every depth, and past nothing else.  So it is an equivalence. -/
theorem same_iff_sorted_eq {a b : Ast} (ha : a.HasDistinctKeywords) (hb : b.HasDistinctKeywords) :
    (a.Same b ↔ a.sorted = b.sorted) ∧ a.Same a ∧ (a.Same b → b.Same a) ∧
      ∀ c : Ast, c.HasDistinctKeywords → a.Same b → b.Same c → a.Same c := by
  refine ⟨sameSorts ha b hb, same_refl ha, fun hab => ?_, fun c hc hab hbc => ?_⟩
  · exact (sameSorts hb a ha).mpr ((sameSorts ha b hb).mp hab).symm
  · have hsorted := ((sameSorts ha b hb).mp hab).trans ((sameSorts hb c hc).mp hbc)
    exact (sameSorts ha c hc).mpr hsorted

/-- A function of one optional parameter, whose default value is a call with these keywords. -/
def sampleFunction (keywords : List (Symbol × Ast)) : Ast :=
  .lam ⟨[], [⟨⟨⟨"p"⟩, .values⟩, some (.app (.ref ⟨⟨"f"⟩, .functions⟩) ⟨[], keywords⟩)⟩], [], none,
    none⟩ (.seq [])

theorem hasDistinctKeywords_sampleFunction {keywords : List (Symbol × Ast)}
    (hkeys : (keywords.map Prod.fst).Nodup)
    (hvalues : ∀ entry ∈ keywords, entry.2.HasDistinctKeywords) :
    (sampleFunction keywords).HasDistinctKeywords := by
  refine everywhere_lam trivial (fun p hp a ha => ?_) (.node trivial nofun)
  obtain rfl := List.mem_singleton.mp hp
  cases ha
  refine everywhere_app hkeys (everywhere_ref trivial) fun a ha => ?_
  obtain ⟨entry, hentry, rfl⟩ := List.mem_map.mp ha
  exact hvalues entry hentry

/-- Keywords may change places in the default value of a parameter, and there in the default value
of another; keywords that change their values make another tree. -/
theorem same_sampleFunction :
    let x : Ast := .ref ⟨⟨"x"⟩, .values⟩
    let a := sampleFunction [(⟨"j"⟩, x), (⟨"k"⟩, sampleFunction [(⟨"j"⟩, x), (⟨"k"⟩, .seq [])])]
    let b := sampleFunction [(⟨"k"⟩, sampleFunction [(⟨"k"⟩, .seq []), (⟨"j"⟩, x)]), (⟨"j"⟩, x)]
    let c := sampleFunction [(⟨"j"⟩, x), (⟨"k"⟩, sampleFunction [(⟨"k"⟩, x), (⟨"j"⟩, .seq [])])]
    (a.HasDistinctKeywords ∧ b.HasDistinctKeywords ∧ c.HasDistinctKeywords) ∧
      a.Same b ∧ b.Same a ∧ ¬ b.Same c := by
  intro x a b c
  have hx : x.HasDistinctKeywords := everywhere_ref trivial
  have hseq : (seq []).HasDistinctKeywords := .node trivial nofun
  have hinner {first second : Symbol} {v w : Ast} (hne : first ≠ second)
      (hv : v.HasDistinctKeywords) (hw : w.HasDistinctKeywords) :
      (sampleFunction [(first, v), (second, w)]).HasDistinctKeywords :=
    hasDistinctKeywords_sampleFunction (by simpa using hne) (by simp [hv, hw])
  have ha : a.HasDistinctKeywords := hinner (by decide) hx (hinner (by decide) hx hseq)
  have hb : b.HasDistinctKeywords := hinner (by decide) (hinner (by decide) hseq hx) hx
  have hc : c.HasDistinctKeywords := hinner (by decide) hx (hinner (by decide) hx hseq)
  obtain ⟨hsame, -, hsymm, htrans⟩ := same_iff_sorted_eq ha hb
  have hab : a.Same b := hsame.mpr (by cbv)
  refine ⟨⟨ha, hb, hc⟩, hab, hsymm hab, fun hbc => ?_⟩
  have hac : a.sorted = c.sorted := (same_iff_sorted_eq ha hc).1.mp (htrans c hc hab hbc)
  have hne : a.sorted ≠ c.sorted := by
    cbv
    simp
  exact hne hac

end Ast
end LispFront
