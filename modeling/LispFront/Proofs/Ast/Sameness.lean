import LispFront.Ast.Equality
import LispFront.Proofs.Ast.Expressible
import Mathlib.Data.List.Forall2

/-!
# Sameness

What equality of syntax trees says at each kind of node.  Lists are compared place by place, and
what may be absent is absent in both or in neither.  The keyword arguments of a call are compared
by number, and by looking up those of the one in the other; with distinct keywords that makes every
tree the same as itself (`Ast.same_refl`).
-/

namespace LispFront

/-- With distinct keywords, what is looked up is the value that stands there. -/
theorem Arguments.lookup_of_mem {α : Type} {args : Arguments α} (h : args.keys.Nodup)
    {entry : Symbol × α} (hentry : entry ∈ args.keywords) :
    args.keywords.lookup entry.1 = some entry.2 := by
  obtain ⟨before, after, hsplit⟩ := List.append_of_mem hentry
  refine List.lookup_eq_some_iff.mpr ⟨before, after, hsplit, fun other hother => ?_⟩
  unfold keys at h
  rw [hsplit, List.map_append, List.map_cons] at h
  have hnew := (List.nodup_append.mp h).2.2 other.1 (List.mem_map_of_mem hother) entry.1
    List.mem_cons_self
  exact bne_iff_ne.mpr (Ne.symm hnew)

/-- Lists that are related place by place begin alike. -/
theorem forall₂_head? {α β : Type} {R : α → β → Prop} {xs : List α} {ys : List β}
    (h : List.Forall₂ R xs ys) : Option.Rel R xs.head? ys.head? := by
  cases h with
  | nil => exact .none
  | cons hhead _ => exact .some hhead

namespace Ast

/-- The trees are the same up to the order of keyword arguments. -/
abbrev Same (a b : Ast) : Prop := a.same b = true

/-! ## Lists and parts that may be absent -/

theorem sameAll_iff {as bs : List Ast} : sameAll as bs = true ↔ List.Forall₂ Same as bs := by
  induction as generalizing bs with
  | nil => cases bs <;> simp [sameAll]
  | cons a as ih =>
      cases bs with
      | nil => simp [sameAll]
      | cons b bs => rw [sameAll, Bool.and_eq_true, ih, List.forall₂_cons]

theorem same?_iff {d e : Option Ast} : same? d e = true ↔ Option.Rel Same d e := by
  cases d <;> cases e <;> simp [same?]

/-- The parameters are the same. -/
structure SameParameter (p q : Parameter Ast) : Prop where
  id : p.id = q.id
  default : Option.Rel Same p.default q.default

theorem sameParameter_iff {p q : Parameter Ast} :
    SameParameter p q ↔ (p.id == q.id && same? p.default q.default) = true := by
  rw [Bool.and_eq_true, beq_iff_eq, same?_iff]
  exact ⟨fun h => ⟨h.id, h.default⟩, fun h => ⟨h.1, h.2⟩⟩

theorem sameParameters_iff {ps qs : List (Parameter Ast)} :
    sameParameters ps qs = true ↔ List.Forall₂ SameParameter ps qs := by
  induction ps generalizing qs with
  | nil => cases qs <;> simp [sameParameters]
  | cons p ps ih =>
      cases qs with
      | nil => simp [sameParameters]
      | cons q qs =>
          rw [sameParameters, Bool.and_eq_true, ih, List.forall₂_cons, sameParameter_iff]

theorem sameParameter?_iff {p q : Option (Parameter Ast)} :
    sameParameter? p q = true ↔ Option.Rel SameParameter p q := by
  cases p with
  | none => cases q <;> simp [sameParameter?]
  | some p =>
      cases q with
      | none => simp [sameParameter?]
      | some q => rw [sameParameter?, Option.rel_some_some, sameParameter_iff]

/-! ## Nodes -/

/-- The parameters of all groups are the same. -/
structure SameParameters (ps qs : Parameters Ast) : Prop where
  required : List.Forall₂ SameParameter ps.required qs.required
  optional : List.Forall₂ SameParameter ps.optional qs.optional
  keyword : List.Forall₂ SameParameter ps.keyword qs.keyword
  rest : Option.Rel SameParameter ps.rest qs.rest
  allKeys : Option.Rel SameParameter ps.allKeys qs.allKeys

theorem same_lam_iff {ps qs : Parameters Ast} {body body' : Ast} :
    (lam ps body).Same (lam qs body') ↔ SameParameters ps qs ∧ body.Same body' := by
  obtain ⟨_, _, _, _, _⟩ := ps
  obtain ⟨_, _, _, _, _⟩ := qs
  simp only [Same, same, Bool.and_eq_true, sameParameters_iff, sameParameter?_iff]
  constructor
  · rintro ⟨⟨⟨⟨⟨hreq, hopt⟩, hkey⟩, hrest⟩, hall⟩, hbody⟩
    exact ⟨⟨hreq, hopt, hkey, hrest, hall⟩, hbody⟩
  · rintro ⟨⟨hreq, hopt, hkey, hrest, hall⟩, hbody⟩
    exact ⟨⟨⟨⟨⟨hreq, hopt⟩, hkey⟩, hrest⟩, hall⟩, hbody⟩

theorem sameKeywords_iff {keys keys' : List (Symbol × Ast)} :
    sameKeywords keys keys' = true ↔
      ∀ entry ∈ keys, ∃ b, keys'.lookup entry.1 = some b ∧ entry.2.Same b := by
  induction keys with
  | nil => simp [sameKeywords]
  | cons entry rest ih =>
      obtain ⟨key, a⟩ := entry
      rw [sameKeywords, Bool.and_eq_true, ih, List.forall_mem_cons, keywordValue?]
      cases keys'.lookup key with
      | none => simp
      | some b => simp

/-- The arguments are the same: the positional ones in order, and as many keywords, each with the
same value. -/
structure SameArguments (args args' : Arguments Ast) : Prop where
  positional : List.Forall₂ Same args.positional args'.positional
  count : args.keywords.length = args'.keywords.length
  keywords : ∀ entry ∈ args.keywords,
    ∃ b, args'.keywords.lookup entry.1 = some b ∧ entry.2.Same b

theorem same_app_iff {f g : Ast} {args args' : Arguments Ast} :
    (app f args).Same (app g args') ↔ f.Same g ∧ SameArguments args args' := by
  obtain ⟨_, _⟩ := args
  obtain ⟨_, _⟩ := args'
  simp only [Same, same, Bool.and_eq_true, beq_iff_eq, sameAll_iff, sameKeywords_iff]
  constructor
  · rintro ⟨⟨⟨hoperator, hpositional⟩, hcount⟩, hkeywords⟩
    exact ⟨hoperator, hpositional, hcount, hkeywords⟩
  · rintro ⟨hoperator, hpositional, hcount, hkeywords⟩
    exact ⟨⟨⟨hoperator, hpositional⟩, hcount⟩, hkeywords⟩

theorem same_seq_iff {as bs : List Ast} : (seq as).Same (seq bs) ↔ List.Forall₂ Same as bs := by
  rw [Same, same, sameAll_iff]

/-! ## Every tree is the same as itself -/

theorem SameParameter.refl {p : Parameter Ast} (h : ∀ a, p.default = some a → a.Same a) :
    SameParameter p p where
  id := rfl
  default := by
    cases hdefault : p.default with
    | none => exact .none
    | some a => exact .some (h a hdefault)

theorem SameParameters.refl {ps : Parameters Ast}
    (h : ∀ p ∈ ps.all, ∀ a, p.default = some a → a.Same a) : SameParameters ps ps := by
  have hlist {group : List (Parameter Ast)} (hgroup : ∀ p ∈ group, p ∈ ps.all) :
      List.Forall₂ SameParameter group group :=
    List.forall₂_same.mpr fun p hp => .refl (h p (hgroup p hp))
  have hsingle {group : Option (Parameter Ast)} (hgroup : ∀ p ∈ group.toList, p ∈ ps.all) :
      Option.Rel SameParameter group group := by
    cases group with
    | none => exact .none
    | some p => exact .some (.refl (h p (hgroup p List.mem_cons_self)))
  refine ⟨hlist fun p hp => ?_, hlist fun p hp => ?_, hlist fun p hp => ?_,
    hsingle fun p hp => ?_, hsingle fun p hp => ?_⟩
  all_goals
    simp only [Parameters.all, List.mem_append]
    tauto

theorem SameArguments.refl {args : Arguments Ast} (hkeys : args.keys.Nodup)
    (h : ∀ a ∈ args.values, a.Same a) : SameArguments args args where
  positional :=
    List.forall₂_same.mpr fun a ha => h a (Arguments.mem_values_of_positional ha)
  count := rfl
  keywords entry hentry :=
    ⟨entry.2, Arguments.lookup_of_mem hkeys hentry,
      h entry.2 (Arguments.mem_values_of_keywords hentry)⟩

/-- Every tree with distinct keywords is the same as itself. -/
theorem same_refl {a : Ast} (h : a.HasDistinctKeywords) : a.Same a := by
  induction h with
  | @node a here below ih =>
      cases a with
      | ref id => simp [Same, same]
      | define id value => simpa [Same, same] using ih value List.mem_cons_self
      | assign id value => simpa [Same, same] using ih value List.mem_cons_self
      | cond test consequent alternative =>
          simp only [children, List.mem_cons, List.not_mem_nil, or_false, forall_eq_or_imp,
            forall_eq] at ih
          simpa [Same, same, and_assoc] using ih
      | seq es => exact same_seq_iff.mpr (List.forall₂_same.mpr ih)
      | app f args =>
          refine same_app_iff.mpr ⟨ih f List.mem_cons_self, .refl here fun b hb => ?_⟩
          exact ih b (List.mem_cons_of_mem f hb)
      | lam ps body =>
          refine same_lam_iff.mpr ⟨.refl fun p hp b hb => ?_, ih body body_mem_children⟩
          exact ih b (default_mem_children hp hb)

end Ast
end LispFront
