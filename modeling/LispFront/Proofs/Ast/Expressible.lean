import LispFront.Ast.Basic
import Mathlib.Data.List.Nodup

/-!
# Expressible syntax trees

Not every syntax tree is the meaning of a form.  `Ast.Expressible` names what a form can express, as
a condition on every node: assignments and parameters are in the name space of variables, a
parameter that stands alone is not taken for a marker, keywords have names, and a positional
argument is not taken for the marker of a keyword.  `Ast.HasDistinctKeywords` says that the keywords
of every call are distinct.
-/

namespace LispFront

namespace Arguments

/-- The values of the arguments: the positional ones, then those of the keywords. -/
def values {α : Type} (args : Arguments α) : List α :=
  args.positional ++ args.keywords.map Prod.snd

theorem mem_values_of_positional {α : Type} {args : Arguments α} {a : α}
    (h : a ∈ args.positional) : a ∈ args.values :=
  List.mem_append_left _ h

theorem mem_values_of_keywords {α : Type} {args : Arguments α} {entry : Symbol × α}
    (h : entry ∈ args.keywords) : entry.2 ∈ args.values :=
  List.mem_append_right _ (List.mem_map_of_mem h)

/-- The keywords, in order. -/
def keys {α : Type} (args : Arguments α) : List Symbol := args.keywords.map Prod.fst

/-- Setting a keyword keeps the order of the keywords, and puts a new one at the end. -/
theorem keys_setKeyword {α : Type} (args : Arguments α) (key : Symbol) (value : α) :
    (args.setKeyword key value).keys =
      if key ∈ args.keys then args.keys else args.keys ++ [key] :=
  keys_bind key value args.keywords

/-- Setting a keyword keeps the keywords distinct. -/
theorem nodup_keys_setKeyword {α : Type} {args : Arguments α} (h : args.keys.Nodup)
    (key : Symbol) (value : α) : (args.setKeyword key value).keys.Nodup := by
  rw [keys_setKeyword]
  split
  · exact h
  · rename_i hnew
    refine List.nodup_append.mpr ⟨h, List.nodup_singleton _, ?_⟩
    intro name hname other hother heq
    rw [List.mem_singleton.mp hother] at heq
    exact hnew (heq ▸ hname)

end Arguments

namespace Parameters

/-- The parameters of all groups. -/
def all {α : Type} (parameters : Parameters α) : List (Parameter α) :=
  parameters.required ++ parameters.optional ++ parameters.keyword ++ parameters.rest.toList ++
    parameters.allKeys.toList

variable {α : Type} {parameters : Parameters α} {p : Parameter α}

theorem mem_all_of_required (h : p ∈ parameters.required) : p ∈ parameters.all := by
  simp [all, h]

theorem mem_all_of_optional (h : p ∈ parameters.optional) : p ∈ parameters.all := by
  simp [all, h]

theorem mem_all_of_keyword (h : p ∈ parameters.keyword) : p ∈ parameters.all := by
  simp [all, h]

theorem mem_all_of_rest (h : p ∈ parameters.rest) : p ∈ parameters.all := by
  simp [all, Option.mem_def.mp h]

theorem mem_all_of_allKeys (h : p ∈ parameters.allKeys) : p ∈ parameters.all := by
  simp [all, Option.mem_def.mp h]

end Parameters

namespace Ast

/-- The nodes right below a node. -/
def children : Ast → List Ast
  | ref _ => []
  | define _ value => [value]
  | assign _ value => [value]
  | cond test consequent alternative => [test, consequent, alternative]
  | seq expressions => expressions
  | app operator args => operator :: args.values
  | lam parameters body => parameters.all.filterMap (·.default) ++ [body]

theorem default_mem_children {parameters : Parameters Ast} {body a : Ast} {p : Parameter Ast}
    (hp : p ∈ parameters.all) (ha : p.default = some a) : a ∈ (lam parameters body).children :=
  List.mem_append_left _ (List.mem_filterMap.mpr ⟨p, hp, ha⟩)

theorem body_mem_children {parameters : Parameters Ast} {body : Ast} :
    body ∈ (lam parameters body).children :=
  List.mem_append_right _ List.mem_cons_self

/-- A condition holds at every node of a tree. -/
inductive Everywhere (P : Ast → Prop) : Ast → Prop
  | node {a : Ast} (here : P a) (below : ∀ b ∈ a.children, Everywhere P b) : Everywhere P a

theorem everywhere_iff {P : Ast → Prop} {a : Ast} :
    a.Everywhere P ↔ P a ∧ ∀ b ∈ a.children, b.Everywhere P := by
  constructor
  · rintro ⟨here, below⟩
    exact ⟨here, below⟩
  · rintro ⟨here, below⟩
    exact .node here below

/-- A reference has no nodes below it. -/
theorem everywhere_ref {P : Ast → Prop} {id : Identifier} (here : P (.ref id)) :
    (ref id).Everywhere P :=
  .node here fun _ hb => absurd hb List.not_mem_nil

theorem everywhere_define {P : Ast → Prop} {id : Identifier} {value : Ast}
    (here : P (.define id value)) (hvalue : value.Everywhere P) :
    (define id value).Everywhere P := by
  refine .node here fun b hb => ?_
  rw [List.mem_singleton.mp hb]
  exact hvalue

theorem everywhere_assign {P : Ast → Prop} {id : Identifier} {value : Ast}
    (here : P (.assign id value)) (hvalue : value.Everywhere P) :
    (assign id value).Everywhere P := by
  refine .node here fun b hb => ?_
  rw [List.mem_singleton.mp hb]
  exact hvalue

theorem everywhere_cond {P : Ast → Prop} {test consequent alternative : Ast}
    (here : P (.cond test consequent alternative)) (htest : test.Everywhere P)
    (hconsequent : consequent.Everywhere P) (halternative : alternative.Everywhere P) :
    (cond test consequent alternative).Everywhere P := by
  refine .node here fun b hb => ?_
  simp only [children, List.mem_cons, List.not_mem_nil, or_false] at hb
  rcases hb with rfl | rfl | rfl
  · exact htest
  · exact hconsequent
  · exact halternative

theorem everywhere_app {P : Ast → Prop} {operator : Ast} {args : Arguments Ast}
    (here : P (.app operator args)) (hoperator : operator.Everywhere P)
    (hvalues : ∀ a ∈ args.values, a.Everywhere P) : (app operator args).Everywhere P := by
  refine .node here fun b hb => ?_
  rcases List.mem_cons.mp hb with rfl | hvalue
  · exact hoperator
  · exact hvalues b hvalue

theorem everywhere_lam {P : Ast → Prop} {parameters : Parameters Ast} {body : Ast}
    (here : P (.lam parameters body))
    (hdefaults : ∀ p ∈ parameters.all, ∀ a, p.default = some a → a.Everywhere P)
    (hbody : body.Everywhere P) : (lam parameters body).Everywhere P := by
  refine .node here fun b hb => ?_
  rcases List.mem_append.mp hb with hdefault | hlast
  · obtain ⟨p, hp, hpb⟩ := List.mem_filterMap.mp hdefault
    exact hdefaults p hp b hpb
  · rw [List.mem_singleton.mp hlast]
    exact hbody

theorem everywhere_and {P Q : Ast → Prop} {a : Ast} :
    a.Everywhere (fun b => P b ∧ Q b) ↔ a.Everywhere P ∧ a.Everywhere Q := by
  constructor
  · intro h
    induction h with
    | node here _ ih =>
        exact ⟨.node here.1 fun b hb => (ih b hb).1, .node here.2 fun b hb => (ih b hb).2⟩
  · rintro ⟨hp, hq⟩
    induction hp with
    | node here _ ih =>
        obtain ⟨hereq, belowq⟩ := hq
        exact .node ⟨here, hereq⟩ fun b hb => ih b hb (belowq b hb)

/-- The names of the markers in a parameter list. -/
def markerNames : List String := ["&optional:", "&key:", "&rest:", "&all-keys:"]

/-- Whether a parameter can stand in a parameter list. -/
structure ParameterExpressible (p : Parameter Ast) : Prop where
  space : p.id.space = .values
  name : p.default = none → p.id.symbol.name ∉ markerNames

/-- Whether arguments can stand in a call: a positional reference to a variable must not be taken
for the marker of a keyword. -/
structure ArgumentsExpressible (args : Arguments Ast) : Prop where
  names : ∀ entry ∈ args.keywords, entry.1.name ≠ ""
  plain : ∀ s, .ref ⟨s, .values⟩ ∈ args.positional → s.isKeywordMarker = false

/-- Whether a form can express a node, given that forms can express what is below it. -/
def ExpressibleNode : Ast → Prop
  | assign id _ => id.space = .values
  | app _ args => ArgumentsExpressible args
  | lam parameters _ => ∀ p ∈ parameters.all, ParameterExpressible p
  | ref _ | define _ _ | cond _ _ _ | seq _ => True

/-- A form can express the tree. -/
def Expressible (a : Ast) : Prop := a.Everywhere ExpressibleNode

/-- Whether the keywords of a call are distinct. -/
def DistinctNode : Ast → Prop
  | app _ args => args.keys.Nodup
  | ref _ | define _ _ | assign _ _ | cond _ _ _ | seq _ | lam _ _ => True

/-- The keywords of every call are distinct. -/
def HasDistinctKeywords (a : Ast) : Prop := a.Everywhere DistinctNode

end Ast
end LispFront
