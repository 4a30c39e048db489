import LispFront.Proofs.Normalize.Image

/-!
# Names

Normalization invents no names.  Whatever holds of all symbols of a tree holds of every name in the
syntax tree that it is normalized to, that of a keyword being taken with its colon.
-/

namespace LispFront

namespace Symbol

/-- A marker is its keyword with the colon. -/
theorem withColon_sansColon {s : Symbol} (h : s.isKeywordMarker = true) :
    s.sansColon.withColon = s := by
  have hlast : (s.name.toList.getLast? == some ':') = true := (Bool.and_eq_true_iff.mp h).2
  have hname : s.name.toList = s.name.toList.dropLast ++ [':'] :=
    (List.dropLast_append_getLast? ':' (beq_iff_eq.mp hlast)).symm
  have hsame : s.sansColon.withColon.name.toList = s.name.toList := by
    rw [toList_withColon]
    unfold sansColon
    rw [if_pos hlast, String.toList_ofList, ← hname]
  obtain ⟨name⟩ := s
  exact congrArg Symbol.mk (String.toList_inj.mp hsame)

end Symbol

theorem Arguments.mem_values_addPositional {α : Type} {args : Arguments α} {a b : α}
    (h : b ∈ (args.addPositional a).values) : b = a ∨ b ∈ args.values := by
  simp only [values, addPositional, List.mem_append, List.mem_singleton] at h ⊢
  rcases h with (hbefore | hnew) | hkeyword
  · exact .inr (.inl hbefore)
  · exact .inl hnew
  · exact .inr (.inr hkeyword)

theorem Arguments.mem_values_setKeyword {α : Type} {args : Arguments α} {key : Symbol} {a b : α}
    (h : b ∈ (args.setKeyword key a).values) : b = a ∨ b ∈ args.values := by
  rcases List.mem_append.mp h with hpositional | hkeyword
  · exact .inr (mem_values_of_positional hpositional)
  · obtain ⟨entry, hentry, rfl⟩ := List.mem_map.mp hkeyword
    rcases Ast.mem_bind hentry with rfl | hbefore
    · exact .inl rfl
    · exact .inr (mem_values_of_keywords hbefore)

namespace Ast

variable {named : Symbol → Prop}

/-- The names at a node have the property. -/
def NamedNode (named : Symbol → Prop) : Ast → Prop
  | ref id | define id _ | assign id _ => named id.symbol
  | app _ args => ∀ key ∈ args.keys, named key.withColon
  | lam parameters _ => ∀ p ∈ parameters.all, named p.id.symbol
  | cond _ _ _ | seq _ => True

/-- All names in the tree have the property. -/
def Named (named : Symbol → Prop) (a : Ast) : Prop := a.Everywhere (NamedNode named)

/-- All names in the arguments have the property. -/
structure ArgumentsNamed (named : Symbol → Prop) (args : Arguments Ast) : Prop where
  keys : ∀ key ∈ args.keys, named key.withColon
  values : ∀ a ∈ args.values, a.Named named

/-- All names in the parameter have the property. -/
structure ParameterNamed (named : Symbol → Prop) (p : Parameter Ast) : Prop where
  name : named p.id.symbol
  default : ∀ a, p.default = some a → a.Named named

theorem argumentsNamed_empty : ArgumentsNamed named .empty := ⟨nofun, nofun⟩

theorem ArgumentsNamed.addPositional {args : Arguments Ast} (h : ArgumentsNamed named args)
    {a : Ast} (ha : a.Named named) : ArgumentsNamed named (args.addPositional a) where
  keys := h.keys
  values := by
    intro b hb
    rcases Arguments.mem_values_addPositional hb with rfl | hbefore
    · exact ha
    · exact h.values b hbefore

theorem ArgumentsNamed.setKeyword {args : Arguments Ast} (h : ArgumentsNamed named args)
    {key : Symbol} (hkey : named key.withColon) {a : Ast} (ha : a.Named named) :
    ArgumentsNamed named (args.setKeyword key a) where
  keys := by
    intro other hother
    obtain ⟨entry, hentry, rfl⟩ := List.mem_map.mp hother
    rcases mem_bind hentry with rfl | hbefore
    · exact hkey
    · exact h.keys entry.1 (List.mem_map_of_mem hbefore)
  values := by
    intro b hb
    rcases Arguments.mem_values_setKeyword hb with rfl | hbefore
    · exact ha
    · exact h.values b hbefore

/-- Every step of normalization takes its names from the source. -/
theorem invariant_named (named : Symbol → Prop) :
    Invariant named (Named named) (ArgumentsNamed named) (ParameterNamed named) where
  ref _ hs := everywhere_ref hs
  define _ _ hs hvalue := everywhere_define hs hvalue
  assign hs hvalue := everywhere_assign hs hvalue
  cond htest hconsequent halternative := everywhere_cond trivial htest hconsequent halternative
  seq hall := .node trivial hall
  empty := argumentsNamed_empty
  addPositional hbefore ha _ := hbefore.addPositional ha
  setKeyword hbefore hs hmarker ha := by
    rw [← Symbol.withColon_sansColon hmarker] at hs
    exact hbefore.setKeyword hs ha
  app hoperator hargs := everywhere_app hargs.keys hoperator hargs.values
  plain hs _ := ⟨hs, nofun⟩
  defaulted hs ha := ⟨hs, fun _ hdefault => Option.some.inj hdefault ▸ ha⟩
  lam hparameters hbody := everywhere_lam (fun p hp => (hparameters p hp).name)
    (fun p hp => (hparameters p hp).default) hbody

end Ast

/-- All names in a normalized tree are names of the source. -/
theorem Datum.named_of_normalize {named : Symbol → Prop} {d : Datum} {a : Ast}
    (hd : d.SymbolsIn named) (h : d.normalize = .ok a) : a.Named named :=
  (Ast.invariant_named named).of_normalize hd h

end LispFront
