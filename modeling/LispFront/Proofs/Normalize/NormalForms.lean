import LispFront.Proofs.Normalize.Invariants

/-!
# Normal forms

Every syntax tree that a tree is normalized to is expressible, and the keywords of its calls are
distinct.  Both are invariants of normalization.
-/

namespace LispFront

namespace Symbol

/-- The keyword of a marker has a name. -/
theorem name_sansColon_ne {s : Symbol} (h : s.isKeywordMarker = true) : s.sansColon.name ≠ "" := by
  unfold isKeywordMarker at h
  obtain ⟨hlength, hlast⟩ := Bool.and_eq_true_iff.mp h
  rw [decide_eq_true_eq, ← String.length_toList] at hlength
  unfold sansColon
  rw [if_pos hlast]
  intro hname
  -- Without a name the marker would be a lone colon, which is too short.
  have hnil : s.name.toList.dropLast = [] := by simpa using congrArg String.toList hname
  have hdrop := congrArg List.length hnil
  rw [List.length_dropLast, List.length_nil] at hdrop
  omega

end Symbol

/-! ## What is normalized is expressible -/

namespace Ast

/-- The condition on one node of a normal form. -/
def NormalNode (a : Ast) : Prop := a.ExpressibleNode ∧ a.DistinctNode

/-- The condition on every node of a normal form. -/
def Normal (a : Ast) : Prop := a.Everywhere NormalNode

theorem normal_iff {a : Ast} : a.Normal ↔ a.Expressible ∧ a.HasDistinctKeywords := everywhere_and

/-- What dissected arguments satisfy. -/
structure ArgumentsNormal (args : Arguments Ast) : Prop where
  expressible : ArgumentsExpressible args
  distinct : args.keys.Nodup
  positional : ∀ a ∈ args.positional, a.Normal
  keywords : ∀ entry ∈ args.keywords, entry.2.Normal

theorem argumentsNormal_empty : ArgumentsNormal .empty where
  expressible := ⟨nofun, nofun⟩
  distinct := List.nodup_nil
  positional := nofun
  keywords := nofun

theorem ArgumentsNormal.addPositional {args : Arguments Ast} (h : ArgumentsNormal args) {a : Ast}
    (ha : a.Normal) (hplain : ∀ s, a = .ref ⟨s, .values⟩ → s.isKeywordMarker = false) :
    ArgumentsNormal (args.addPositional a) where
  expressible := by
    refine ⟨h.expressible.names, fun s hs => ?_⟩
    rcases List.mem_append.mp hs with hbefore | hnew
    · exact h.expressible.plain s hbefore
    · exact hplain s (List.mem_singleton.mp hnew).symm
  distinct := h.distinct
  positional := by
    intro b hb
    rcases List.mem_append.mp hb with hbefore | hnew
    · exact h.positional b hbefore
    · rw [List.mem_singleton.mp hnew]
      exact ha
  keywords := h.keywords

/-- A bound keyword replaces an entry or stands at the end. -/
theorem mem_bind {α : Type} {key : Symbol} {value : α} {keywords : List (Symbol × α)}
    {entry : Symbol × α} (h : entry ∈ Arguments.bind key value keywords) :
    entry = (key, value) ∨ entry ∈ keywords := by
  induction keywords with
  | nil => exact .inl (List.mem_singleton.mp h)
  | cons first rest ih =>
      rw [Arguments.bind] at h
      split at h
      · rcases List.mem_cons.mp h with hnew | hrest
        · exact .inl hnew
        · exact .inr (List.mem_cons_of_mem _ hrest)
      · rcases List.mem_cons.mp h with hfirst | hrest
        · exact .inr (List.mem_cons.mpr (.inl hfirst))
        · exact (ih hrest).imp_right (List.mem_cons_of_mem _)

theorem ArgumentsNormal.setKeyword {args : Arguments Ast} (h : ArgumentsNormal args) {key : Symbol}
    (hkey : key.name ≠ "") {a : Ast} (ha : a.Normal) :
    ArgumentsNormal (args.setKeyword key a) where
  expressible := by
    refine ⟨fun entry hentry => ?_, h.expressible.plain⟩
    rcases mem_bind hentry with rfl | hbefore
    · exact hkey
    · exact h.expressible.names entry hbefore
  distinct := Arguments.nodup_keys_setKeyword h.distinct key a
  positional := h.positional
  keywords := by
    intro entry hentry
    rcases mem_bind hentry with rfl | hbefore
    · exact ha
    · exact h.keywords entry hbefore

theorem ArgumentsNormal.values {args : Arguments Ast} (h : ArgumentsNormal args) :
    ∀ a ∈ args.values, a.Normal := by
  intro a ha
  rcases List.mem_append.mp ha with hpositional | hkeyword
  · exact h.positional a hpositional
  · obtain ⟨entry, hentry, rfl⟩ := List.mem_map.mp hkeyword
    exact h.keywords entry hentry

/-- What a dissected parameter satisfies. -/
structure ParameterNormal (p : Parameter Ast) : Prop where
  expressible : ParameterExpressible p
  default : ∀ a, p.default = some a → a.Normal

/-- Being normal is kept by every step of normalization, whatever symbols there are. -/
theorem invariant_normal : Invariant (fun _ => True) Normal ArgumentsNormal ParameterNormal where
  ref _ _ := everywhere_ref ⟨trivial, trivial⟩
  define _ _ _ hvalue := everywhere_define ⟨trivial, trivial⟩ hvalue
  assign _ hvalue := everywhere_assign ⟨rfl, trivial⟩ hvalue
  cond htest hconsequent halternative :=
    everywhere_cond ⟨trivial, trivial⟩ htest hconsequent halternative
  seq hall := .node ⟨trivial, trivial⟩ hall
  empty := argumentsNormal_empty
  addPositional hbefore ha hplain := hbefore.addPositional ha hplain
  setKeyword hbefore _ hmarker ha := hbefore.setKeyword (Symbol.name_sansColon_ne hmarker) ha
  app hoperator hargs := everywhere_app ⟨hargs.expressible, hargs.distinct⟩ hoperator hargs.values
  plain _ hname := ⟨⟨rfl, fun _ => hname⟩, nofun⟩
  defaulted _ ha := ⟨⟨rfl, nofun⟩, fun _ hdefault => Option.some.inj hdefault ▸ ha⟩
  lam hparameters hbody := everywhere_lam ⟨fun p hp => (hparameters p hp).expressible, trivial⟩
    (fun p hp => (hparameters p hp).default) hbody

end Ast

/-- Every normal form is expressible, and the keywords of its calls are distinct. -/
theorem Datum.normal_of_normalize {d : Datum} {a : Ast} (h : d.normalize = .ok a) : a.Normal :=
  Ast.invariant_normal.of_normalize (symbolsIn_of_forall (fun _ => trivial) d) h

end LispFront
