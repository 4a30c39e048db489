import LispFront.Ast.Layout
import LispFront.Proofs.Normalize.Image

/-!
# Written forms

The tree that a syntax tree is written as, whatever its layout: a form with a head word for every
node.  Different syntax trees have different written forms, if they are expressible
(`eq_of_written_eq`).  A head word tells the kind of a node and the name space of its identifier;
the keywords of a call are symbols behind positional arguments that are all lists; and a group of
parameters ends where a marker stands, which no parameter is taken for.
-/

namespace LispFront
namespace Ast

open Datum (ofSymbol)

/-- A form with a head word and parts. -/
def writtenForm (head : String) (parts : List Datum) : Datum := .list (ofSymbol ⟨head⟩ :: parts)

/-- The groups of a parameter list, each after its marker; an empty group is left out. -/
def writtenGroups : List (String × List Datum) → List Datum
  | [] => []
  | (_, []) :: groups => writtenGroups groups
  | (marker, d :: ds) :: groups => ofSymbol ⟨marker⟩ :: (d :: ds ++ writtenGroups groups)

mutual

/-- The written form of a syntax tree. -/
def written : Ast → Datum
  | .ref id => writtenForm (refHead id.space) [ofSymbol id.symbol]
  | .define id value => writtenForm (defineHead id.space) [ofSymbol id.symbol, value.written]
  | .assign id value => writtenForm (assignHead id.space) [ofSymbol id.symbol, value.written]
  | .cond test consequent alternative =>
    writtenForm "if" [test.written, consequent.written, alternative.written]
  | .seq expressions => writtenForm "seq" (writtenAll expressions)
  | .app operator ⟨positional, keywords⟩ =>
    writtenForm "app" (operator.written :: (writtenAll positional ++ writtenKeywords keywords))
  | .lam ⟨required, optional, keyword, rest, allKeys⟩ body =>
    writtenForm "lambda" [
      .list (writtenParameters required ++ writtenGroups [
        ("&optional:", writtenParameters optional), ("&key:", writtenParameters keyword),
        ("&rest:", writtenParameter? rest), ("&all-keys:", writtenParameter? allKeys)]),
      body.written]

/-- The written forms of syntax trees. -/
def writtenAll : List Ast → List Datum
  | [] => []
  | a :: rest => a.written :: writtenAll rest

/-- Keywords with their colons, each before the written form of its value. -/
def writtenKeywords : List (Symbol × Ast) → List Datum
  | [] => []
  | (key, value) :: rest => ofSymbol key.withColon :: value.written :: writtenKeywords rest

/-- Parameters: names, or lists of a name and the written form of a default value. -/
def writtenParameters : List (Parameter Ast) → List Datum
  | [] => []
  | ⟨id, none⟩ :: rest => ofSymbol id.symbol :: writtenParameters rest
  | ⟨id, some value⟩ :: rest =>
    .list [ofSymbol id.symbol, value.written] :: writtenParameters rest

/-- A parameter that may be absent. -/
def writtenParameter? : Option (Parameter Ast) → List Datum
  | none => []
  | some ⟨id, none⟩ => [ofSymbol id.symbol]
  | some ⟨id, some value⟩ => [.list [ofSymbol id.symbol, value.written]]

end

/-- The written form of one parameter. -/
def writtenParameter (p : Parameter Ast) : Datum :=
  match p.default with
  | none => ofSymbol p.id.symbol
  | some value => .list [ofSymbol p.id.symbol, value.written]

theorem writtenAll_eq_map (as : List Ast) : writtenAll as = as.map written := by
  induction as with
  | nil => rw [writtenAll, List.map_nil]
  | cons a as ih => rw [writtenAll, ih, List.map_cons]

theorem writtenParameters_eq_map (ps : List (Parameter Ast)) :
    writtenParameters ps = ps.map writtenParameter := by
  induction ps with
  | nil => rw [writtenParameters, List.map_nil]
  | cons p ps ih =>
      obtain ⟨id, default⟩ := p
      cases default with
      | none => rw [writtenParameters, ih, List.map_cons, writtenParameter]
      | some value => rw [writtenParameters, ih, List.map_cons, writtenParameter]

theorem writtenParameter?_eq_map (p : Option (Parameter Ast)) :
    writtenParameter? p = p.toList.map writtenParameter := by
  cases p with
  | none => rw [writtenParameter?, Option.toList_none, List.map_nil]
  | some p =>
      obtain ⟨id, default⟩ := p
      cases default with
      | none => rw [writtenParameter?, Option.toList_some, List.map_singleton, writtenParameter]
      | some value =>
          rw [writtenParameter?, Option.toList_some, List.map_singleton, writtenParameter]

/-! ## Lists that are put together -/

/-- Two lists are cut alike where all elements before the cut have a property and the first one
after it does not. -/
theorem append_inj_of_cut {α : Type} {p : α → Prop} {xs xs' ys ys' : List α}
    (hxs : ∀ x ∈ xs, p x) (hxs' : ∀ x ∈ xs', p x) (hys : ∀ y ∈ ys.head?, ¬ p y)
    (hys' : ∀ y ∈ ys'.head?, ¬ p y) (h : xs ++ ys = xs' ++ ys') : xs = xs' ∧ ys = ys' := by
  induction xs generalizing xs' with
  | nil =>
      cases xs' with
      | nil => exact ⟨rfl, h⟩
      | cons x' xs' =>
          rw [List.nil_append] at h
          subst h
          exact absurd (hxs' x' List.mem_cons_self) (hys x' rfl)
  | cons x xs ih =>
      cases xs' with
      | nil =>
          rw [List.nil_append] at h
          subst h
          exact absurd (hxs x List.mem_cons_self) (hys' x rfl)
      | cons x' xs' =>
          obtain ⟨rfl, hrest⟩ := List.cons.inj h
          obtain ⟨rfl, hafter⟩ := ih (fun y hy => hxs y (List.mem_cons_of_mem _ hy))
            (fun y hy => hxs' y (List.mem_cons_of_mem _ hy)) hrest
          exact ⟨rfl, hafter⟩

theorem eq_of_map_eq {α β : Type} {f : α → β} {xs ys : List α}
    (hf : ∀ x ∈ xs, ∀ y ∈ ys, f x = f y → x = y) (h : xs.map f = ys.map f) : xs = ys := by
  induction xs generalizing ys with
  | nil => exact (List.map_eq_nil_iff.mp h.symm).symm
  | cons x xs ih =>
      cases ys with
      | nil => cases h
      | cons y ys =>
          obtain ⟨hhead, htail⟩ := List.cons.inj h
          obtain rfl : x = y := hf x List.mem_cons_self y List.mem_cons_self hhead
          rw [ih (fun z hz w hw => hf z (List.mem_cons_of_mem _ hz) w (List.mem_cons_of_mem _ hw))
            htail]

theorem ofSymbol_inj {s t : Symbol} : ofSymbol s = ofSymbol t ↔ s = t := by
  simp [ofSymbol]

/-! ## Groups of parameters -/

/-- Groups begin with the marker of one of them. -/
theorem head_writtenGroups {groups : List (String × List Datum)} {d : Datum}
    (h : d ∈ (writtenGroups groups).head?) : ∃ name ∈ groups.map Prod.fst, d = ofSymbol ⟨name⟩ := by
  induction groups with
  | nil => cases h
  | cons group groups ih =>
      obtain ⟨name, ds⟩ := group
      cases ds with
      | nil =>
          obtain ⟨other, hother, rfl⟩ := ih h
          exact ⟨other, List.mem_cons_of_mem _ hother, rfl⟩
      | cons e ds =>
          cases h
          exact ⟨name, List.mem_cons_self, rfl⟩

theorem writtenGroups_ne_cons {groups : List (String × List Datum)} {name : String}
    (h : name ∉ groups.map Prod.fst) (rest : List Datum) :
    writtenGroups groups ≠ ofSymbol ⟨name⟩ :: rest := by
  intro heq
  have hhead : ofSymbol ⟨name⟩ ∈ (writtenGroups groups).head? := by
    rw [heq]
    rfl
  obtain ⟨other, hother, hsymbol⟩ := head_writtenGroups hhead
  obtain rfl : name = other := congrArg Symbol.name (ofSymbol_inj.mp hsymbol)
  exact h hother

theorem group?_head_writtenGroups {groups : List (String × List Datum)}
    (hmarkers : ∀ name ∈ groups.map Prod.fst, name ∈ markerNames) :
    ∀ d ∈ (writtenGroups groups).head?, ¬ d.group? = none := by
  intro d hd hnone
  obtain ⟨name, hname, rfl⟩ := head_writtenGroups hd
  exact Normalize.Group.ofMarker?_eq_none_iff.mp hnone (hmarkers name hname)

/-- No parameter in the groups is taken for a marker. -/
def PlainGroups (groups : List (String × List Datum)) : Prop :=
  ∀ group ∈ groups, ∀ d ∈ group.2, d.group? = none

/-- Groups with the same distinct markers can be told from how they are written. -/
theorem writtenGroups_inj {groups groups' : List (String × List Datum)}
    (hsame : groups.map Prod.fst = groups'.map Prod.fst)
    (hdistinct : (groups.map Prod.fst).Nodup)
    (hmarkers : ∀ name ∈ groups.map Prod.fst, name ∈ markerNames)
    (hplain : PlainGroups groups) (hplain' : PlainGroups groups')
    (h : writtenGroups groups = writtenGroups groups') : groups = groups' := by
  induction groups generalizing groups' with
  | nil => exact (List.map_eq_nil_iff.mp hsame.symm).symm
  | cons group groups ih =>
      cases groups' with
      | nil => cases hsame
      | cons group' groups' =>
          obtain ⟨name, ds⟩ := group
          obtain ⟨name', ds'⟩ := group'
          obtain ⟨hname, hnames⟩ := List.cons.inj hsame
          obtain rfl : name = name' := hname
          obtain ⟨hnew, hdistinct⟩ := List.nodup_cons.mp hdistinct
          have hlater : writtenGroups groups = writtenGroups groups' → groups = groups' :=
            ih hnames hdistinct (fun n hn => hmarkers n (List.mem_cons_of_mem _ hn))
              (fun g hg => hplain g (List.mem_cons_of_mem _ hg))
              fun g hg => hplain' g (List.mem_cons_of_mem _ hg)
          have hrestMarkers : ∀ n ∈ groups.map Prod.fst, n ∈ markerNames :=
            fun n hn => hmarkers n (List.mem_cons_of_mem _ hn)
          have hds : ∀ d ∈ ds, d.group? = none := hplain _ List.mem_cons_self
          have hds' : ∀ d ∈ ds', d.group? = none := hplain' _ List.mem_cons_self
          -- The marker stands there unless the group is empty, and it is none of the later ones.
          match ds, ds' with
          | [], [] => rw [hlater h]
          | [], _ :: _ => exact absurd h (writtenGroups_ne_cons hnew _)
          | _ :: _, [] =>
              rw [hnames] at hnew
              exact absurd h.symm (writtenGroups_ne_cons hnew _)
          | d :: ds, d' :: ds' =>
              have hcut := group?_head_writtenGroups hrestMarkers
              rw [hnames] at hrestMarkers
              have hcut' := group?_head_writtenGroups hrestMarkers
              obtain ⟨hgroup, hrest⟩ :=
                append_inj_of_cut hds hds' hcut hcut' (List.cons.inj h).2
              rw [hgroup, hlater hrest]

/-! ## Different trees are written differently -/

/-- The node is the only expressible one with its written form. -/
def WrittenUniquely (a : Ast) : Prop := ∀ b, b.Expressible → a.written = b.written → a = b

theorem withColon_inj {s t : Symbol} (h : s.withColon = t.withColon) : s = t := by
  rw [← Symbol.sansColon_withColon s, h, Symbol.sansColon_withColon]

theorem writtenKeywords_inj {ks ls : List (Symbol × Ast)}
    (hks : ∀ entry ∈ ks, entry.2.WrittenUniquely) (hls : ∀ entry ∈ ls, entry.2.Expressible)
    (h : writtenKeywords ks = writtenKeywords ls) : ks = ls := by
  induction ks generalizing ls with
  | nil =>
      cases ls with
      | nil => rfl
      | cons l ls => cases h
  | cons k ks ih =>
      cases ls with
      | nil => cases h
      | cons l ls =>
          obtain ⟨key, a⟩ := k
          obtain ⟨other, b⟩ := l
          obtain ⟨hkey, hrest⟩ := List.cons.inj h
          obtain ⟨hvalue, hlater⟩ := List.cons.inj hrest
          obtain rfl : key = other := withColon_inj (ofSymbol_inj.mp hkey)
          obtain rfl : a = b :=
            hks (key, a) List.mem_cons_self b (hls (key, b) List.mem_cons_self) hvalue
          rw [ih (fun e he => hks e (List.mem_cons_of_mem _ he))
            (fun e he => hls e (List.mem_cons_of_mem _ he)) hlater]

/-- A name and the written form of its value. -/
theorem writtenBinding_inj {s t : Symbol} {a b : Ast} (ha : a.WrittenUniquely)
    (hb : b.Expressible) (h : [ofSymbol s, a.written] = [ofSymbol t, b.written]) :
    s = t ∧ a = b := by
  obtain ⟨hname, hrest⟩ := List.cons.inj h
  exact ⟨ofSymbol_inj.mp hname, ha b hb (List.cons.inj hrest).1⟩

theorem writtenParameter_inj {p q : Parameter Ast} (hp : ParameterExpressible p)
    (hq : ParameterExpressible q) (hunique : ∀ a, p.default = some a → a.WrittenUniquely)
    (hdefault : ∀ b, q.default = some b → b.Expressible)
    (h : writtenParameter p = writtenParameter q) : p = q := by
  obtain ⟨⟨s, space⟩, d⟩ := p
  obtain ⟨⟨t, space'⟩, e⟩ := q
  obtain rfl : space = .values := hp.space
  obtain rfl : space' = .values := hq.space
  cases d with
  | none =>
      cases e with
      | none =>
          obtain rfl : s = t := ofSymbol_inj.mp h
          rfl
      | some b => cases h
  | some a =>
      cases e with
      | none => cases h
      | some b =>
          obtain ⟨rfl, rfl⟩ :=
            writtenBinding_inj (hunique a rfl) (hdefault b rfl) (Datum.list.inj h)
          rfl

theorem group?_writtenParameter {p : Parameter Ast} (hp : ParameterExpressible p) :
    (writtenParameter p).group? = none := by
  obtain ⟨id, d⟩ := p
  cases d with
  | none => exact Normalize.Group.ofMarker?_eq_none_iff.mpr (hp.name rfl)
  | some a => rfl

/-- The head word of a node. -/
def head : Ast → String
  | ref id => refHead id.space
  | define id _ => defineHead id.space
  | assign id _ => assignHead id.space
  | cond _ _ _ => "if"
  | seq _ => "seq"
  | app _ _ => "app"
  | lam _ _ => "lambda"

/-- The head words, each with the kind of its nodes. -/
def headKinds : List (String × Nat) :=
  [("ref", 0), ("fref", 0), ("def", 1), ("fdef", 1), ("set", 2), ("fset", 2), ("if", 3), ("seq", 4),
    ("app", 5), ("lambda", 6)]

theorem lookup_head (a : Ast) : headKinds.lookup a.head = some a.ctorIdx := by
  cases a with
  | ref id =>
      obtain ⟨s, space⟩ := id
      cases space <;> rfl
  | define id value =>
      obtain ⟨s, space⟩ := id
      cases space <;> rfl
  | assign id value =>
      obtain ⟨s, space⟩ := id
      cases space <;> rfl
  | _ => rfl

theorem writtenForm_inj {head head' : String} {parts parts' : List Datum}
    (h : writtenForm head parts = writtenForm head' parts') : head = head' ∧ parts = parts' := by
  obtain ⟨hhead, hparts⟩ := List.cons.inj (Datum.list.inj h)
  exact ⟨congrArg Symbol.name (ofSymbol_inj.mp hhead), hparts⟩

-- The equations of `written` are made once here, not in each of the proofs below.
attribute [local simp] written

theorem exists_written_eq_form (a : Ast) : ∃ parts, a.written = writtenForm a.head parts := by
  cases a with
  | app operator args => exact ⟨_, by rw [written]; rfl⟩
  | lam parameters body => exact ⟨_, by rw [written]; rfl⟩
  | _ => exact ⟨_, by rw [written]; rfl⟩

/-- Nodes that are written the same are of the same kind. -/
theorem ctorIdx_eq_of_written_eq {a b : Ast} (h : a.written = b.written) :
    a.ctorIdx = b.ctorIdx := by
  obtain ⟨parts, ha⟩ := exists_written_eq_form a
  obtain ⟨parts', hb⟩ := exists_written_eq_form b
  rw [ha, hb] at h
  have hsome : some a.ctorIdx = some b.ctorIdx := by
    rw [← lookup_head a, ← lookup_head b, (writtenForm_inj h).1]
  exact Option.some.inj hsome

/-- The groups of parameters that stand behind a marker. -/
def markedGroups (parameters : Parameters Ast) : List (String × List (Parameter Ast)) :=
  [("&optional:", parameters.optional), ("&key:", parameters.keyword),
    ("&rest:", parameters.rest.toList), ("&all-keys:", parameters.allKeys.toList)]

/-- The groups of parameters that stand behind a marker, as they are written. -/
def writtenMarkedGroups (parameters : Parameters Ast) : List (String × List Datum) :=
  (markedGroups parameters).map (Prod.map id (List.map writtenParameter))

/-- The elements of a parameter list. -/
def writtenParameterList (parameters : Parameters Ast) : List Datum :=
  parameters.required.map writtenParameter ++ writtenGroups (writtenMarkedGroups parameters)

theorem written_lam (parameters : Parameters Ast) (body : Ast) :
    (lam parameters body).written =
      writtenForm "lambda" [.list (writtenParameterList parameters), body.written] := by
  obtain ⟨required, optional, keyword, rest, allKeys⟩ := parameters
  rw [written, writtenParameters_eq_map, writtenParameters_eq_map, writtenParameters_eq_map,
    writtenParameter?_eq_map, writtenParameter?_eq_map]
  rfl

theorem map_fst_writtenMarkedGroups (parameters : Parameters Ast) :
    (writtenMarkedGroups parameters).map Prod.fst = markerNames := rfl

theorem mem_all_of_markedGroups {parameters : Parameters Ast} {p : Parameter Ast}
    {group : String × List (Parameter Ast)} (hgroup : group ∈ markedGroups parameters)
    (h : p ∈ group.2) : p ∈ parameters.all := by
  simp only [markedGroups, List.mem_cons, List.not_mem_nil, or_false] at hgroup
  rcases hgroup with rfl | rfl | rfl | rfl
  all_goals simp_all [Parameters.all]

/-- A parameter list has its required parameters and its groups. -/
theorem parameters_eq {ps qs : Parameters Ast} (hrequired : ps.required = qs.required)
    (hgroups : markedGroups ps = markedGroups qs) : ps = qs := by
  obtain ⟨required, optional, keyword, rest, allKeys⟩ := ps
  obtain ⟨required', optional', keyword', rest', allKeys'⟩ := qs
  simp only [markedGroups, List.cons.injEq, Prod.mk.injEq, true_and, and_true] at hgroups
  obtain ⟨hoptional, hkeyword, hrest, hallKeys⟩ := hgroups
  have htoList {p q : Option (Parameter Ast)} (h : p.toList = q.toList) : p = q := by
    have hhead := congrArg List.head? h
    rw [Option.head?_toList, Option.head?_toList] at hhead
    exact hhead
  rw [show required = required' from hrequired, hoptional, hkeyword, htoList hrest,
    htoList hallKeys]

theorem plainGroups_writtenMarkedGroups {parameters : Parameters Ast}
    (h : ∀ p ∈ parameters.all, ParameterExpressible p) :
    PlainGroups (writtenMarkedGroups parameters) := by
  intro group hgroup d hd
  obtain ⟨⟨name, ps⟩, hps, rfl⟩ := List.mem_map.mp hgroup
  obtain ⟨p, hp, rfl⟩ := List.mem_map.mp hd
  exact group?_writtenParameter (h p (mem_all_of_markedGroups hps hp))

theorem writtenParameterList_inj {ps qs : Parameters Ast}
    (hps : ∀ p ∈ ps.all, ParameterExpressible p) (hqs : ∀ q ∈ qs.all, ParameterExpressible q)
    (hunique : ∀ p ∈ ps.all, ∀ a, p.default = some a → a.WrittenUniquely)
    (hdefault : ∀ q ∈ qs.all, ∀ b, q.default = some b → b.Expressible)
    (h : writtenParameterList ps = writtenParameterList qs) : ps = qs := by
  have hgroup {group group' : List (Parameter Ast)} (hsub : ∀ p ∈ group, p ∈ ps.all)
      (hsub' : ∀ q ∈ group', q ∈ qs.all)
      (heq : group.map writtenParameter = group'.map writtenParameter) : group = group' :=
    eq_of_map_eq (fun p hp q hq => writtenParameter_inj (hps p (hsub p hp)) (hqs q (hsub' q hq))
      (hunique p (hsub p hp)) (hdefault q (hsub' q hq))) heq
  have hplain {parameters : Parameters Ast} (hall : ∀ p ∈ parameters.all, ParameterExpressible p) :
      ∀ d ∈ parameters.required.map writtenParameter, d.group? = none := by
    intro d hd
    obtain ⟨p, hp, rfl⟩ := List.mem_map.mp hd
    exact group?_writtenParameter (hall p (Parameters.mem_all_of_required hp))
  have hcut (parameters : Parameters Ast) :
      ∀ d ∈ (writtenGroups (writtenMarkedGroups parameters)).head?, ¬ d.group? = none :=
    group?_head_writtenGroups fun name hname => hname
  obtain ⟨hrequired, hgroups⟩ := append_inj_of_cut (hplain hps) (hplain hqs) (hcut ps) (hcut qs) h
  have hmarked : writtenMarkedGroups ps = writtenMarkedGroups qs :=
    writtenGroups_inj rfl (by rw [map_fst_writtenMarkedGroups]; decide) (fun name hname => hname)
      (plainGroups_writtenMarkedGroups hps) (plainGroups_writtenMarkedGroups hqs) hgroups
  refine parameters_eq (hgroup (fun _ => Parameters.mem_all_of_required)
    (fun _ => Parameters.mem_all_of_required) hrequired)
    (eq_of_map_eq (fun group hg group' hg' heq => ?_) hmarked)
  obtain ⟨hname, hparameters⟩ := Prod.mk.inj heq
  exact Prod.ext hname (hgroup (fun _ hp => mem_all_of_markedGroups hg hp)
    (fun _ hq => mem_all_of_markedGroups hg' hq) hparameters)

/-! ## Calls -/

theorem written_app (operator : Ast) (args : Arguments Ast) :
    (app operator args).written = writtenForm "app" (operator.written ::
      (args.positional.map written ++ writtenKeywords args.keywords)) := by
  obtain ⟨positional, keywords⟩ := args
  rw [written, writtenAll_eq_map]

theorem head_writtenKeywords {keywords : List (Symbol × Ast)} {d : Datum}
    (h : d ∈ (writtenKeywords keywords).head?) : ∃ s, d = ofSymbol s := by
  cases keywords with
  | nil => cases h
  | cons entry keywords =>
      cases h
      exact ⟨_, rfl⟩

/-- Where the keywords begin there is a symbol, and all positional arguments are lists. -/
theorem writtenArguments_inj {args args' : Arguments Ast}
    (hunique : ∀ a ∈ args.values, a.WrittenUniquely) (hvalues : ∀ b ∈ args'.values, b.Expressible)
    (h : args.positional.map written ++ writtenKeywords args.keywords =
      args'.positional.map written ++ writtenKeywords args'.keywords) : args = args' := by
  obtain ⟨positional, keywords⟩ := args
  obtain ⟨positional', keywords'⟩ := args'
  have hlist (as : List Ast) : ∀ d ∈ as.map written, ∃ ds, d = Datum.list ds := by
    intro d hd
    obtain ⟨a, -, rfl⟩ := List.mem_map.mp hd
    obtain ⟨parts, hparts⟩ := exists_written_eq_form a
    exact ⟨_, hparts⟩
  have hsymbol (keywords : List (Symbol × Ast)) :
      ∀ d ∈ (writtenKeywords keywords).head?, ¬ ∃ ds, d = Datum.list ds := by
    rintro d hd ⟨ds, rfl⟩
    obtain ⟨s, hs⟩ := head_writtenKeywords hd
    cases hs
  obtain ⟨hpositional, hkeywords⟩ :=
    append_inj_of_cut (hlist _) (hlist _) (hsymbol _) (hsymbol _) h
  obtain rfl : positional = positional' :=
    eq_of_map_eq (fun a ha b hb => hunique a (Arguments.mem_values_of_positional ha) b
      (hvalues b (Arguments.mem_values_of_positional hb))) hpositional
  obtain rfl : keywords = keywords' := writtenKeywords_inj
    (fun e he => hunique e.2 (Arguments.mem_values_of_keywords he))
    (fun e he => hvalues e.2 (Arguments.mem_values_of_keywords he)) hkeywords
  rfl

/-! ## All nodes -/

theorem refHead_inj {s t : Namespace} (h : refHead s = refHead t) : s = t := by
  cases s <;> cases t <;> simp [refHead] at h ⊢

theorem defineHead_inj {s t : Namespace} (h : defineHead s = defineHead t) : s = t := by
  cases s <;> cases t <;> simp [defineHead] at h ⊢

theorem assignHead_inj {s t : Namespace} (h : assignHead s = assignHead t) : s = t := by
  cases s <;> cases t <;> simp [assignHead] at h ⊢

theorem writtenUniquely_ref (id : Identifier) : (ref id).WrittenUniquely := by
  intro b _ h
  cases b with
  | ref id' =>
      obtain ⟨s, space⟩ := id
      obtain ⟨t, space'⟩ := id'
      rw [written, written] at h
      obtain ⟨hhead, hparts⟩ := writtenForm_inj h
      obtain rfl : space = space' := refHead_inj hhead
      obtain rfl : s = t := ofSymbol_inj.mp (List.cons.inj hparts).1
      rfl
  | _ => cases ctorIdx_eq_of_written_eq h

theorem writtenUniquely_define (id : Identifier) {value : Ast} (hvalue : value.WrittenUniquely) :
    (define id value).WrittenUniquely := by
  intro b hb h
  cases b with
  | define id' value' =>
      obtain ⟨s, space⟩ := id
      obtain ⟨t, space'⟩ := id'
      rw [written, written] at h
      obtain ⟨hhead, hparts⟩ := writtenForm_inj h
      obtain rfl : space = space' := defineHead_inj hhead
      obtain ⟨rfl, rfl⟩ :=
        writtenBinding_inj hvalue ((everywhere_iff.mp hb).2 value' List.mem_cons_self) hparts
      rfl
  | _ => cases ctorIdx_eq_of_written_eq h

theorem writtenUniquely_assign (id : Identifier) {value : Ast} (hvalue : value.WrittenUniquely) :
    (assign id value).WrittenUniquely := by
  intro b hb h
  cases b with
  | assign id' value' =>
      obtain ⟨s, space⟩ := id
      obtain ⟨t, space'⟩ := id'
      rw [written, written] at h
      obtain ⟨hhead, hparts⟩ := writtenForm_inj h
      obtain rfl : space = space' := assignHead_inj hhead
      obtain ⟨rfl, rfl⟩ :=
        writtenBinding_inj hvalue ((everywhere_iff.mp hb).2 value' List.mem_cons_self) hparts
      rfl
  | _ => cases ctorIdx_eq_of_written_eq h

theorem writtenUniquely_cond {test consequent alternative : Ast} (htest : test.WrittenUniquely)
    (hconsequent : consequent.WrittenUniquely) (halternative : alternative.WrittenUniquely) :
    (cond test consequent alternative).WrittenUniquely := by
  intro b hb h
  cases b with
  | cond test' consequent' alternative' =>
      have hbelow := (everywhere_iff.mp hb).2
      simp only [children, List.mem_cons, List.not_mem_nil, or_false, forall_eq_or_imp,
        forall_eq] at hbelow
      rw [written, written] at h
      have hparts := (writtenForm_inj h).2
      simp only [List.cons.injEq, and_true] at hparts
      rw [htest test' hbelow.1 hparts.1, hconsequent consequent' hbelow.2.1 hparts.2.1,
        halternative alternative' hbelow.2.2 hparts.2.2]
  | _ => cases ctorIdx_eq_of_written_eq h

theorem writtenUniquely_seq {expressions : List Ast}
    (hall : ∀ e ∈ expressions, e.WrittenUniquely) : (seq expressions).WrittenUniquely := by
  intro b hb h
  cases b with
  | seq expressions' =>
      rw [written, written, writtenAll_eq_map, writtenAll_eq_map] at h
      obtain rfl : expressions = expressions' :=
        eq_of_map_eq (fun e he e' he' => hall e he e' ((everywhere_iff.mp hb).2 e' he'))
          (writtenForm_inj h).2
      rfl
  | _ => cases ctorIdx_eq_of_written_eq h

theorem writtenUniquely_app {operator : Ast} {args : Arguments Ast}
    (hoperator : operator.WrittenUniquely) (hargs : ∀ a ∈ args.values, a.WrittenUniquely) :
    (app operator args).WrittenUniquely := by
  intro b hb h
  cases b with
  | app operator' args' =>
      have hbelow := (everywhere_iff.mp hb).2
      rw [written_app, written_app] at h
      obtain ⟨hfirst, hrest⟩ := List.cons.inj (writtenForm_inj h).2
      obtain rfl : operator = operator' :=
        hoperator operator' (hbelow operator' List.mem_cons_self) hfirst
      obtain rfl : args = args' :=
        writtenArguments_inj hargs (fun v hv => hbelow v (List.mem_cons_of_mem _ hv)) hrest
      rfl
  | _ => cases ctorIdx_eq_of_written_eq h

theorem writtenUniquely_lam {parameters : Parameters Ast} {body : Ast}
    (hparameters : ∀ p ∈ parameters.all, ParameterExpressible p)
    (hdefaults : ∀ p ∈ parameters.all, ∀ a, p.default = some a → a.WrittenUniquely)
    (hbody : body.WrittenUniquely) : (lam parameters body).WrittenUniquely := by
  intro b hb h
  cases b with
  | lam parameters' body' =>
      obtain ⟨hexpressible, hbelow⟩ := everywhere_iff.mp hb
      rw [written_lam, written_lam] at h
      obtain ⟨hlist, hrest⟩ := List.cons.inj (writtenForm_inj h).2
      obtain rfl : parameters = parameters' :=
        writtenParameterList_inj hparameters hexpressible hdefaults
          (fun _ hq v hv => hbelow v (default_mem_children hq hv)) (Datum.list.inj hlist)
      obtain rfl : body = body' :=
        hbody body' (hbelow body' body_mem_children) (List.cons.inj hrest).1
      rfl
  | _ => cases ctorIdx_eq_of_written_eq h

/-- Expressible trees that are written the same are the same. -/
theorem eq_of_written_eq {a : Ast} (ha : a.Expressible) : a.WrittenUniquely := by
  induction ha with
  | @node a here below ih =>
      cases a with
      | ref id => exact writtenUniquely_ref id
      | define id value => exact writtenUniquely_define id (ih value List.mem_cons_self)
      | assign id value => exact writtenUniquely_assign id (ih value List.mem_cons_self)
      | cond test consequent alternative =>
          simp only [children, List.mem_cons, List.not_mem_nil, or_false, forall_eq_or_imp,
            forall_eq] at ih
          exact writtenUniquely_cond ih.1 ih.2.1 ih.2.2
      | seq expressions => exact writtenUniquely_seq ih
      | app operator args =>
          exact writtenUniquely_app (ih operator List.mem_cons_self)
            fun v hv => ih v (List.mem_cons_of_mem _ hv)
      | lam parameters body =>
          exact writtenUniquely_lam here (fun _ hp v hv => ih v (default_mem_children hp hv))
            (ih body body_mem_children)

end Ast
end LispFront
