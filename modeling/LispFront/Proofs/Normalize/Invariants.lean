import LispFront.Proofs.Ast.Expressible
import LispFront.Proofs.Normalize.Tree
import LispFront.Proofs.Syntax.Unfolding

/-!
# Invariants of normalization

What holds of every syntax tree that is normalized from a tree whose symbols have some property.  An
`Invariant` is kept by each step of the functions that take a tree apart; then it holds of what they
give in the end (`Invariant.of_normalize`).  The induction is on the height of the tree:
`SoundBelow` is what it assumes of the parts, with one lemma for each function.
-/

namespace LispFront

open Normalize

/-- Two results one after the other are a value if both are. -/
theorem except_bind_eq_ok {ε α β : Type} {x : Except ε α} {f : α → Except ε β} {b : β} :
    x >>= f = .ok b ↔ ∃ a, x = .ok a ∧ f a = .ok b := by
  cases x with
  | error e =>
      constructor
      · exact nofun
      · rintro ⟨a, ha, -⟩
        cases ha
  | ok a =>
      constructor
      · exact fun h => ⟨a, rfl, h⟩
      · rintro ⟨a', ha', h⟩
        cases ha'
        exact h

theorem except_ok_bind {ε α β : Type} (a : α) (f : α → Except ε β) :
    (.ok a : Except ε α) >>= f = f a := rfl

theorem except_pure_eq_ok {ε α : Type} {a b : α} :
    (pure a : Except ε α) = .ok b ↔ a = b := by
  constructor
  · exact Except.ok.inj
  · rintro rfl
    rfl

namespace Datum

/-! ## Symbols of a tree -/

mutual

/-- All symbols of the tree have the property. -/
def SymbolsIn (named : Symbol → Prop) : Datum → Prop
  | .symbol s => named s.symbol
  | .string _ => True
  | .number _ => True
  | .list ds => AllSymbolsIn named ds

/-- All symbols of the trees have the property. -/
def AllSymbolsIn (named : Symbol → Prop) : List Datum → Prop
  | [] => True
  | d :: ds => d.SymbolsIn named ∧ AllSymbolsIn named ds

end

mutual

theorem symbolsIn_of_forall {named : Symbol → Prop} (h : ∀ s, named s) :
    (d : Datum) → d.SymbolsIn named
  | .symbol s => h s.symbol
  | .string _ => trivial
  | .number _ => trivial
  | .list ds => allSymbolsIn_of_forall h ds

theorem allSymbolsIn_of_forall {named : Symbol → Prop} (h : ∀ s, named s) :
    (ds : List Datum) → AllSymbolsIn named ds
  | [] => trivial
  | d :: ds => ⟨symbolsIn_of_forall h d, allSymbolsIn_of_forall h ds⟩

end

end Datum

/-! ## Markers -/

namespace Normalize

/-- A name opens no group exactly when it is none of the four markers. -/
theorem Group.ofMarker?_eq_none_iff {s : Symbol} :
    ofMarker? s = none ↔ s.name ∉ Ast.markerNames := by
  unfold ofMarker? Ast.markerNames
  simp only [List.mem_cons, List.not_mem_nil, or_false, not_or, beq_iff_eq]
  constructor
  · intro h
    refine ⟨?_, ?_, ?_, ?_⟩
    all_goals
      intro hname
      simp [hname] at h
  · rintro ⟨hoptional, hkey, hrest, hall⟩
    rw [if_neg hoptional, if_neg hkey, if_neg hrest, if_neg hall]

end Normalize

namespace Datum

open Ast

/-- No special form stands for a variable. -/
theorem normalizeForm_ne_variable (form : SpecialForm) (ds : List Datum) (s : Symbol) :
    normalizeForm form ds ≠ .ok (.ref ⟨s, .values⟩) := by
  intro h
  unfold normalizeForm at h
  split at h
  all_goals simp [except_bind_eq_ok, except_pure_eq_ok, -bind_pure_comp] at h

/-- Only a symbol stands for a variable. -/
theorem eq_symbol_of_normalize {d : Datum} {s : Symbol}
    (h : d.normalize = .ok (.ref ⟨s, .values⟩)) : ∃ context, d = .symbol ⟨s, context⟩ := by
  cases d with
  | symbol name =>
      cases h
      exact ⟨name.context, rfl⟩
  | list ds =>
      cases ds with
      | nil => cases h
      | cons head parts =>
          rw [normalize] at h
          obtain ⟨operator, -, h⟩ := except_bind_eq_ok.mp h
          cases hform : SpecialForm.ofSymbol? operator with
          | some form =>
              rw [hform] at h
              exact absurd h (normalizeForm_ne_variable form _ s)
          | none =>
              rw [hform] at h
              obtain ⟨args, -, h⟩ := except_bind_eq_ok.mp h
              cases h
  | _ => cases h

/-- What is no marker of a keyword stands for no variable that looks like one. -/
theorem plain_of_normalize {d : Datum} {a : Ast} (h : d.normalize = .ok a)
    (hkey : d.keyword? = none) (s : Symbol) (ha : a = .ref ⟨s, .values⟩) :
    s.isKeywordMarker = false := by
  subst ha
  obtain ⟨context, rfl⟩ := eq_symbol_of_normalize h
  cases hmarker : s.isKeywordMarker with
  | false => rfl
  | true => simp [keyword?, hmarker] at hkey

end Datum

/-! ## Invariants -/

/-- Properties of syntax trees, of arguments and of parameters that every step of normalization
keeps when the symbols of the source have the property `named`.  A positional argument does not look
like the marker of a keyword, and a parameter that stands alone is no marker of a group. -/
structure Invariant (named : Symbol → Prop) (tree : Ast → Prop) (args : Arguments Ast → Prop)
    (param : Parameter Ast → Prop) : Prop where
  ref {s : Symbol} (space : Namespace) (hs : named s) : tree (.ref ⟨s, space⟩)
  define {s : Symbol} (space : Namespace) {value : Ast} (hs : named s) (hvalue : tree value) :
    tree (.define ⟨s, space⟩ value)
  assign {s : Symbol} {value : Ast} (hs : named s) (hvalue : tree value) :
    tree (.assign ⟨s, .values⟩ value)
  cond {test consequent alternative : Ast} (htest : tree test) (hconsequent : tree consequent)
    (halternative : tree alternative) : tree (.cond test consequent alternative)
  seq {expressions : List Ast} (hall : ∀ e ∈ expressions, tree e) : tree (.seq expressions)
  empty : args .empty
  addPositional {before : Arguments Ast} {a : Ast} (hbefore : args before) (ha : tree a)
    (hplain : ∀ s, a = .ref ⟨s, .values⟩ → s.isKeywordMarker = false) :
    args (before.addPositional a)
  setKeyword {before : Arguments Ast} {marker : Symbol} {a : Ast} (hbefore : args before)
    (hs : named marker) (hmarker : marker.isKeywordMarker = true) (ha : tree a) :
    args (before.setKeyword marker.sansColon a)
  app {operator : Ast} {arguments : Arguments Ast} (hoperator : tree operator)
    (harguments : args arguments) : tree (.app operator arguments)
  plain {s : Symbol} (hs : named s) (hname : s.name ∉ Ast.markerNames) :
    param ⟨⟨s, .values⟩, none⟩
  defaulted {s : Symbol} {a : Ast} (hs : named s) (ha : tree a) : param ⟨⟨s, .values⟩, some a⟩
  lam {parameters : Parameters Ast} {body : Ast} (hparameters : ∀ p ∈ parameters.all, param p)
    (hbody : tree body) : tree (.lam parameters body)

namespace Datum

open Ast

theorem named_of_asSymbol {named : Symbol → Prop} {d : Datum} {s : Symbol}
    (hd : d.SymbolsIn named) (h : d.asSymbol = .ok s) : named s := by
  cases d with
  | symbol =>
      cases h
      exact hd
  | _ => cases h

theorem exists_marker_of_keyword? {named : Symbol → Prop} {d : Datum} {key : Symbol}
    (hd : d.SymbolsIn named) (h : d.keyword? = some key) :
    ∃ marker, named marker ∧ marker.isKeywordMarker = true ∧ key = marker.sansColon := by
  cases d with
  | symbol s =>
      obtain ⟨hmarker, hkey⟩ := Option.ite_none_right_eq_some.mp h
      cases hkey
      exact ⟨s.symbol, hd, hmarker, rfl⟩
  | _ => cases h

/-- Up to a height, the property holds of what is normalized. -/
def SoundBelow (named : Symbol → Prop) (tree : Ast → Prop) (height : Nat) : Prop :=
  ∀ (d : Datum) (a : Ast), d.height ≤ height → d.SymbolsIn named → d.normalize = .ok a → tree a

variable {named : Symbol → Prop} {tree : Ast → Prop} {args : Arguments Ast → Prop}
  {param : Parameter Ast → Prop} {height : Nat}

theorem SoundBelow.all (hs : SoundBelow named tree height) {ds : List Datum} {as : List Ast}
    (hheight : heights ds ≤ height) (hds : AllSymbolsIn named ds)
    (h : normalizeAll ds = .ok as) : ∀ a ∈ as, tree a := by
  induction ds generalizing as with
  | nil =>
      rw [normalizeAll] at h
      cases h
      intro a ha
      cases ha
  | cons d ds ih =>
      obtain ⟨hheight, hheights⟩ := heights_cons_le.mp hheight
      obtain ⟨hd, hds⟩ := hds
      rw [normalizeAll] at h
      obtain ⟨b, hb, h⟩ := except_bind_eq_ok.mp h
      obtain ⟨bs, hbs, h⟩ := except_bind_eq_ok.mp h
      cases h
      intro a ha
      rcases List.mem_cons.mp ha with rfl | hrest
      · exact hs d a hheight hd hb
      · exact ih hheights hds hbs a hrest

/-- Dissecting keeps the property of arguments, one element or one keyword with its value at a
time. -/
theorem SoundBelow.dissectArguments (hs : SoundBelow named tree height)
    (inv : Invariant named tree args param) :
    {ds : List Datum} → {before result : Arguments Ast} → heights ds ≤ height →
      AllSymbolsIn named ds → args before → Datum.dissectArguments before ds = .ok result →
      args result
  | [], before, result, _, _, hbefore, h => by
      rw [Datum.dissectArguments] at h
      cases h
      exact hbefore
  | d :: ds, before, result, hheight, hall, hbefore, h => by
      obtain ⟨hheight, hheights⟩ := heights_cons_le.mp hheight
      obtain ⟨hd, hds⟩ := hall
      rw [Datum.dissectArguments] at h
      cases hkey : d.keyword? with
      | none =>
          rw [hkey] at h
          obtain ⟨a, ha, h⟩ := except_bind_eq_ok.mp h
          have hafter : args (before.addPositional a) :=
            inv.addPositional hbefore (hs d a hheight hd ha) (plain_of_normalize ha hkey)
          exact hs.dissectArguments inv hheights hds hafter h
      | some key =>
          rw [hkey] at h
          obtain ⟨marker, hnamed, hmarker, rfl⟩ := exists_marker_of_keyword? hd hkey
          -- A marker at the end has no value and fails, so an element follows.
          cases ds with
          | nil => cases h
          | cons value ds =>
              obtain ⟨hheight, hheights⟩ := heights_cons_le.mp hheights
              obtain ⟨hvalue, hds⟩ := hds
              obtain ⟨a, ha, h⟩ := except_bind_eq_ok.mp h
              have hafter : args (before.setKeyword marker.sansColon a) :=
                inv.setKeyword hbefore hnamed hmarker (hs value a hheight hvalue ha)
              exact hs.dissectArguments inv hheights hds hafter h

theorem SoundBelow.parameter (hs : SoundBelow named tree height)
    (inv : Invariant named tree args param) {d : Datum} {p : Parameter Ast}
    (hheight : d.height ≤ height) (hd : d.SymbolsIn named) (hgroup : d.group? = none)
    (h : d.dissectParameter = .ok p) : param p := by
  unfold Datum.dissectParameter at h
  split at h
  · cases h
    exact inv.plain hd (Group.ofMarker?_eq_none_iff.mp hgroup)
  · rename_i name value
    obtain ⟨hname, hvalue, -⟩ := hd
    obtain ⟨s, hs', h⟩ := except_bind_eq_ok.mp h
    obtain ⟨a, ha, h⟩ := except_bind_eq_ok.mp h
    cases h
    simp only [Datum.height, heights] at hheight
    exact inv.defaulted (named_of_asSymbol hname hs') (hs value a (by omega) hvalue ha)
  · cases h
  · cases h

theorem SoundBelow.parameters (hs : SoundBelow named tree height)
    (inv : Invariant named tree args param) {ds : List Datum} {group : Group}
    {groups : List (Group × Parameter Ast)} (hheight : heights ds ≤ height)
    (hds : AllSymbolsIn named ds) (h : dissectParameters group ds = .ok groups) :
    ∀ entry ∈ groups, param entry.2 := by
  induction ds generalizing group groups with
  | nil =>
      rw [dissectParameters] at h
      cases h
      intro a ha
      cases ha
  | cons d ds ih =>
      obtain ⟨hheight, hheights⟩ := heights_cons_le.mp hheight
      obtain ⟨hd, hds⟩ := hds
      rw [dissectParameters] at h
      cases hgroup : d.group? with
      | some next =>
          rw [hgroup] at h
          exact ih hheights hds h
      | none =>
          rw [hgroup] at h
          obtain ⟨p, hp, h⟩ := except_bind_eq_ok.mp h
          obtain ⟨rest, hrest, h⟩ := except_bind_eq_ok.mp h
          cases h
          intro entry hentry
          rcases List.mem_cons.mp hentry with rfl | hlater
          · exact hs.parameter inv hheight hd hgroup hp
          · exact ih hheights hds hrest entry hlater

/-- The parameters that are collected come from some group. -/
theorem mem_of_collectParameters {groups : List (Group × Parameter Ast)}
    {parameters : Parameters Ast} (h : collectParameters groups = .ok parameters)
    {p : Parameter Ast} (hp : p ∈ parameters.all) : ∃ group, (group, p) ∈ groups := by
  have hin {group : Group} (hmem : p ∈ inGroup group groups) : ∃ group, (group, p) ∈ groups := by
    obtain ⟨⟨g, q⟩, hfilter, rfl⟩ := List.mem_map.mp hmem
    exact ⟨g, (List.mem_filter.mp hfilter).1⟩
  simp only [collectParameters] at h
  split at h
  · cases h
  · split at h
    · cases h
    · cases h
      simp only [Parameters.all, List.mem_append, Option.mem_toList] at hp
      rcases hp with (((hp | hp) | hp) | hp) | hp
      · exact hin hp
      · exact hin hp
      · exact hin hp
      · exact hin (List.mem_of_head? hp)
      · exact hin (List.mem_of_head? hp)

theorem SoundBelow.parameterList (hs : SoundBelow named tree height)
    (inv : Invariant named tree args param) {d : Datum} {parameters : Parameters Ast}
    (hheight : d.height ≤ height) (hd : d.SymbolsIn named)
    (h : d.dissectParameterList = .ok parameters) : ∀ p ∈ parameters.all, param p := by
  cases d with
  | list ds =>
      rw [dissectParameterList] at h
      obtain ⟨groups, hgroups, h⟩ := except_bind_eq_ok.mp h
      have hheights : heights ds ≤ height := by
        rw [Datum.height] at hheight
        exact (Nat.le_succ _).trans hheight
      intro p hp
      obtain ⟨group, hmem⟩ := mem_of_collectParameters h hp
      exact hs.parameters inv hheights hd hgroups (group, p) hmem
  | _ => cases h

/-- The four forms that give a name a value. -/
theorem SoundBelow.bound (hs : SoundBelow named tree height) {head name value : Datum} {a : Ast}
    {make : Symbol → Ast → Ast} (hheight : heights [head, name, value] ≤ height)
    (hds : AllSymbolsIn named [head, name, value])
    (h : (do
      let name ← name.asSymbol
      return make name (← value.normalize)) = .ok a)
    (hmake : ∀ {s : Symbol} {b : Ast}, named s → tree b → tree (make s b)) : tree a := by
  obtain ⟨-, hname, hvalue, -⟩ := hds
  obtain ⟨s, hs', h⟩ := except_bind_eq_ok.mp h
  obtain ⟨b, hb, h⟩ := except_bind_eq_ok.mp h
  cases h
  simp only [heights] at hheight
  exact hmake (named_of_asSymbol hname hs') (hs value b (by omega) hvalue hb)

/-- Special forms are sound: one case for each form with the right number of elements. -/
theorem SoundBelow.form (hs : SoundBelow named tree height)
    (inv : Invariant named tree args param) {form : SpecialForm} {ds : List Datum} {a : Ast}
    (hheight : heights ds ≤ height) (hds : AllSymbolsIn named ds)
    (h : normalizeForm form ds = .ok a) : tree a := by
  unfold normalizeForm at h
  split at h
  case h_1 head name =>
    obtain ⟨-, hname, -⟩ := hds
    obtain ⟨s, hs', h⟩ := except_bind_eq_ok.mp h
    cases h
    exact inv.ref .functions (named_of_asSymbol hname hs')
  case h_2 head name value =>
    exact hs.bound hheight hds h (inv.define .values)
  case h_3 head name value =>
    exact hs.bound hheight hds h (inv.define .functions)
  case h_4 head name value =>
    exact hs.bound hheight hds h inv.assign
  case h_5 head name value =>
    exact hs.bound hheight hds h inv.assign
  case h_6 head test consequent alternative =>
    obtain ⟨-, htest, hconsequent, halternative, -⟩ := hds
    obtain ⟨b, hb, h⟩ := except_bind_eq_ok.mp h
    obtain ⟨c, hc, h⟩ := except_bind_eq_ok.mp h
    obtain ⟨e, he, h⟩ := except_bind_eq_ok.mp h
    cases h
    simp only [heights] at hheight
    exact inv.cond (hs test b (by omega) htest hb) (hs consequent c (by omega) hconsequent hc)
      (hs alternative e (by omega) halternative he)
  case h_7 head expressions =>
    obtain ⟨es, hes, h⟩ := except_bind_eq_ok.mp h
    cases h
    simp only [heights] at hheight
    exact inv.seq (hs.all (by omega) hds.2 hes)
  case h_8 head operator arguments =>
    obtain ⟨-, hoperator, harguments⟩ := hds
    obtain ⟨f, hf, h⟩ := except_bind_eq_ok.mp h
    obtain ⟨result, hresult, h⟩ := except_bind_eq_ok.mp h
    cases h
    simp only [heights] at hheight
    exact inv.app (hs operator f (by omega) hoperator hf)
      (hs.dissectArguments inv (by omega) harguments inv.empty hresult)
  case h_9 head list body =>
    obtain ⟨-, hlist, hbody, -⟩ := hds
    obtain ⟨parameters, hparameters, h⟩ := except_bind_eq_ok.mp h
    obtain ⟨b, hb, h⟩ := except_bind_eq_ok.mp h
    cases h
    simp only [heights] at hheight
    exact inv.lam (hs.parameterList inv (by omega) hlist hparameters)
      (hs body b (by omega) hbody hb)
  case h_10 => cases h

/-- The property holds of what is normalized from a list when it does for the parts of the list. -/
theorem SoundBelow.list (hs : SoundBelow named tree height)
    (inv : Invariant named tree args param) {ds : List Datum} {a : Ast}
    (hheight : heights ds ≤ height) (hds : AllSymbolsIn named ds)
    (h : (Datum.list ds).normalize = .ok a) : tree a := by
  cases ds with
  | nil => cases h
  | cons head parts =>
      rw [normalize] at h
      obtain ⟨operator, hoperator, h⟩ := except_bind_eq_ok.mp h
      cases hform : SpecialForm.ofSymbol? operator with
      | some form =>
          rw [hform] at h
          exact hs.form inv hheight hds h
      | none =>
          rw [hform] at h
          obtain ⟨arguments, harguments, h⟩ := except_bind_eq_ok.mp h
          cases h
          have hparts : heights parts ≤ height := (heights_cons_le.mp hheight).2
          exact inv.app (inv.ref .functions (named_of_asSymbol hds.1 hoperator))
            (hs.dissectArguments inv hparts hds.2 inv.empty harguments)

theorem soundBelow (inv : Invariant named tree args param) (height : Nat) :
    SoundBelow named tree height := by
  induction height with
  | zero =>
      intro d a hheight hd h
      cases d with
      | symbol s =>
          cases h
          exact inv.ref .values hd
      | list ds => exact absurd hheight (Nat.not_succ_le_zero _)
      | _ => cases h
  | succ height ih =>
      intro d a hheight hd h
      cases d with
      | symbol s =>
          cases h
          exact inv.ref .values hd
      | list ds => exact ih.list inv (Nat.le_of_succ_le_succ hheight) hd h
      | _ => cases h

end Datum

/-- What the steps of normalization keep holds of what is normalized. -/
theorem Invariant.of_normalize {named : Symbol → Prop} {tree : Ast → Prop}
    {args : Arguments Ast → Prop} {param : Parameter Ast → Prop}
    (inv : Invariant named tree args param) {d : Datum} {a : Ast} (hd : d.SymbolsIn named)
    (h : d.normalize = .ok a) : tree a :=
  Datum.soundBelow inv d.height d a le_rfl hd h

end LispFront
