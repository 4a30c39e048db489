import LispFront.Proofs.Normalize.Agreement
import LispFront.Proofs.Normalize.NormalForms

/-!
# The image of normalization

Every normal form is the meaning of some tree: each node has a form that normalizes to it, given
forms for the nodes below it.  A call is written with `funcall`, its keywords after its positional
arguments, and a parameter list group by group.  With `Datum.normal_of_normalize` the normal forms
are exactly the image of normalization, and by agreement also that of the normalizer.
-/

namespace LispFront

open Normalize
open ObjectSystem (extendedSystem booted_extendedSystem)

namespace Symbol

/-- The marker of a keyword. -/
def withColon (s : Symbol) : Symbol := ⟨s.name ++ ":"⟩

theorem toList_withColon (s : Symbol) : s.withColon.name.toList = s.name.toList ++ [':'] := by
  simp [withColon, String.toList_append]

theorem isKeywordMarker_withColon {s : Symbol} (h : s.name ≠ "") :
    s.withColon.isKeywordMarker = true := by
  have hlength : 0 < s.name.toList.length := by
    rw [List.length_pos_iff]
    intro hnil
    exact h (String.toList_inj.mp hnil)
  unfold isKeywordMarker
  rw [toList_withColon, ← String.length_toList, toList_withColon]
  simp only [List.length_append, List.length_singleton, List.getLast?_append,
    List.getLast?_singleton, Option.some_or, beq_self_eq_true, Bool.and_true, decide_eq_true_eq]
  omega

@[simp] theorem sansColon_withColon (s : Symbol) : s.withColon.sansColon = s := by
  unfold sansColon
  rw [toList_withColon]
  simp

end Symbol

namespace Datum

open Ast

/-! ## What is normal is normalized -/

/-- A special form with these parts after its head. -/
def ofForm (form : SpecialForm) (parts : List Datum) : Datum :=
  list (ofSymbol ⟨form.name⟩ :: parts)

theorem normalize_ofForm (form : SpecialForm) (parts : List Datum) :
    (ofForm form parts).normalize = normalizeForm form (ofSymbol ⟨form.name⟩ :: parts) := by
  have hhead : (ofSymbol ⟨form.name⟩).asSymbol = .ok ⟨form.name⟩ := rfl
  unfold ofForm
  rw [normalize, hhead, except_ok_bind, SpecialForm.ofSymbol?_name]

/-- Forms for a sequence of nodes, one after the other. -/
theorem exists_normalizeAll {as : List Ast} (has : ∀ a ∈ as, ∃ d : Datum, d.normalize = .ok a) :
    ∃ ds, normalizeAll ds = .ok as := by
  induction as with
  | nil => exact ⟨[], rfl⟩
  | cons a as ih =>
      obtain ⟨d, hd⟩ := has a List.mem_cons_self
      obtain ⟨ds, hds⟩ := ih fun b hb => has b (List.mem_cons_of_mem _ hb)
      refine ⟨d :: ds, ?_⟩
      rw [normalizeAll, hd, hds]
      rfl

/-- Positional arguments that look like no marker can be written in front of all others. -/
theorem exists_positional {as : List Ast} (has : ∀ a ∈ as, ∃ d : Datum, d.normalize = .ok a)
    (hplain : ∀ s, .ref ⟨s, .values⟩ ∈ as → s.isKeywordMarker = false) :
    ∃ ds, ∀ (args : Arguments Ast) (rest : List Datum),
      dissectArguments args (ds ++ rest) =
        dissectArguments { args with positional := args.positional ++ as } rest := by
  induction as with
  | nil => exact ⟨[], fun args rest => by rw [List.append_nil, List.nil_append]⟩
  | cons a as ih =>
      obtain ⟨d, hd⟩ := has a List.mem_cons_self
      obtain ⟨ds, hds⟩ := ih (fun b hb => has b (List.mem_cons_of_mem _ hb))
        fun s hs => hplain s (List.mem_cons_of_mem _ hs)
      have hkey : d.keyword? = none := by
        cases d with
        | symbol s =>
            cases hd
            have hmarker := hplain s.symbol List.mem_cons_self
            simp [keyword?, hmarker]
        | _ => rfl
      refine ⟨d :: ds, fun args rest => ?_⟩
      rw [List.cons_append, dissectArguments, hkey, hd]
      show dissectArguments (args.addPositional a) (ds ++ rest) = _
      rw [hds]
      simp [Arguments.addPositional]

theorem bind_of_not_mem {α : Type} {key : Symbol} {keywords : List (Symbol × α)}
    (h : key ∉ keywords.map Prod.fst) (value : α) :
    Arguments.bind key value keywords = keywords ++ [(key, value)] := by
  induction keywords with
  | nil => rfl
  | cons first rest ih =>
      rw [List.map_cons, List.mem_cons, not_or] at h
      rw [Arguments.bind, if_neg (Ne.symm h.1), ih h.2, List.cons_append]

/-- Keywords with names, all of them distinct, can be written after all positional arguments. -/
theorem exists_keywords {entries : List (Symbol × Ast)}
    (hvalues : ∀ entry ∈ entries, ∃ d : Datum, d.normalize = .ok entry.2)
    (hnames : ∀ entry ∈ entries, entry.1.name ≠ "") :
    ∃ ds, ∀ args : Arguments Ast, ((args.keywords ++ entries).map Prod.fst).Nodup →
      dissectArguments args ds = .ok { args with keywords := args.keywords ++ entries } := by
  induction entries with
  | nil =>
      refine ⟨[], fun args _ => ?_⟩
      rw [List.append_nil, dissectArguments]
  | cons entry entries ih =>
      obtain ⟨key, a⟩ := entry
      obtain ⟨d, hd⟩ := hvalues (key, a) List.mem_cons_self
      obtain ⟨ds, hds⟩ := ih (fun e he => hvalues e (List.mem_cons_of_mem _ he))
        fun e he => hnames e (List.mem_cons_of_mem _ he)
      have hkey : (ofSymbol key.withColon).keyword? = some key := by
        have hmarker := Symbol.isKeywordMarker_withColon (hnames (key, a) List.mem_cons_self)
        simp [ofSymbol, keyword?, hmarker]
      refine ⟨ofSymbol key.withColon :: d :: ds, fun args hdistinct => ?_⟩
      -- The keyword is new, so binding it puts it at the end and keeps the order.
      have hnew : key ∉ args.keywords.map Prod.fst := by
        rw [List.map_append, List.map_cons] at hdistinct
        intro hmem
        exact (List.nodup_append.mp hdistinct).2.2 key hmem key List.mem_cons_self rfl
      have hset : args.setKeyword key a =
          { args with keywords := args.keywords ++ [(key, a)] } := by
        unfold Arguments.setKeyword
        rw [bind_of_not_mem hnew]
      rw [dissectArguments, hkey]
      simp only [hd]
      show dissectArguments (args.setKeyword key a) ds = _
      rw [hset, hds]
      · simp
      · simpa using hdistinct

/-- A parameter is written as its name, or with its default value as a list of two. -/
theorem exists_parameter {p : Parameter Ast} (hp : ParameterExpressible p)
    (hdefault : ∀ a, p.default = some a → ∃ d : Datum, d.normalize = .ok a) :
    ∃ d : Datum, d.group? = none ∧ d.dissectParameter = .ok p := by
  obtain ⟨⟨s, space⟩, default⟩ := p
  obtain rfl : space = .values := hp.space
  cases default with
  | none =>
      refine ⟨ofSymbol s, Group.ofMarker?_eq_none_iff.mpr (hp.name rfl), ?_⟩
      unfold ofSymbol
      rw [dissectParameter]
  | some a =>
      obtain ⟨d, hd⟩ := hdefault a rfl
      refine ⟨list [ofSymbol s, d], rfl, ?_⟩
      rw [dissectParameter, hd]
      rfl

/-- Parameters of one group can be written in front of whatever comes after them. -/
theorem exists_parameters {ps : List (Parameter Ast)}
    (hps : ∀ p ∈ ps, ∃ d : Datum, d.group? = none ∧ d.dissectParameter = .ok p) :
    ∃ ds, ∀ (group : Group) (rest : List Datum) (later : List (Group × Parameter Ast)),
      dissectParameters group rest = .ok later →
      dissectParameters group (ds ++ rest) = .ok (ps.map (group, ·) ++ later) := by
  induction ps with
  | nil => exact ⟨[], fun group rest later h => h⟩
  | cons p ps ih =>
      obtain ⟨d, hgroup, hd⟩ := hps p List.mem_cons_self
      obtain ⟨ds, hds⟩ := ih fun q hq => hps q (List.mem_cons_of_mem _ hq)
      refine ⟨d :: ds, fun group rest later h => ?_⟩
      rw [List.cons_append, dissectParameters, hgroup]
      simp only [hd, hds group rest later h]
      rfl

theorem inGroup_append (group : Group) (before after : List (Group × Parameter Ast)) :
    inGroup group (before ++ after) = inGroup group before ++ inGroup group after := by
  unfold inGroup
  rw [List.filter_append, List.map_append]

theorem inGroup_map (group other : Group) (ps : List (Parameter Ast)) :
    inGroup group (ps.map (other, ·)) = if other = group then ps else [] := by
  induction ps with
  | nil => simp [inGroup]
  | cons p ps ih =>
      unfold inGroup at ih ⊢
      rw [List.map_cons, List.filter_cons]
      by_cases h : other = group
      · rw [if_pos h] at ih ⊢
        rw [if_pos (beq_iff_eq.mpr h), List.map_cons, ih]
      · rw [if_neg h] at ih ⊢
        rw [if_neg (fun hbeq => h (beq_iff_eq.mp hbeq)), ih]

/-- The parameters of all groups, each with its group. -/
def grouped (parameters : Parameters Ast) : List (Group × Parameter Ast) :=
  parameters.required.map (.required, ·) ++ (parameters.optional.map (.optional, ·) ++
    (parameters.keyword.map (.keyword, ·) ++ (parameters.rest.toList.map (.rest, ·) ++
      parameters.allKeys.toList.map (.allKeys, ·))))

theorem collectParameters_grouped (parameters : Parameters Ast) :
    collectParameters (grouped parameters) = .ok parameters := by
  have hlength (p : Option (Parameter Ast)) : ¬ 1 < p.toList.length := by
    cases p <;> simp
  obtain ⟨required, optional, keyword, rest, allKeys⟩ := parameters
  simp [collectParameters, grouped, inGroup_append, inGroup_map, hlength]

/-- A parameter list is written group by group, each after its marker. -/
theorem exists_parameterList {parameters : Parameters Ast}
    (hps : ∀ p ∈ parameters.all, ∃ d : Datum, d.group? = none ∧ d.dissectParameter = .ok p) :
    ∃ d : Datum, d.dissectParameterList = .ok parameters := by
  have hall (ps : List (Parameter Ast)) (hsub : ∀ p ∈ ps, p ∈ parameters.all) :=
    exists_parameters fun p hp => hps p (hsub p hp)
  unfold Parameters.all at hall
  obtain ⟨required, hrequired⟩ := hall parameters.required (by simp +contextual)
  obtain ⟨optional, hoptional⟩ := hall parameters.optional (by simp +contextual)
  obtain ⟨keyword, hkeyword⟩ := hall parameters.keyword (by simp +contextual)
  obtain ⟨rest, hrest⟩ := hall parameters.rest.toList (by simp +contextual)
  obtain ⟨allKeys, hallKeys⟩ := hall parameters.allKeys.toList (by simp +contextual)
  -- A marker opens its group for what stands after it, whatever group was open before.
  have hmarker (name : String) (next : Group) (hname : Group.ofMarker? ⟨name⟩ = some next)
      (group : Group) (ds : List Datum) :
      dissectParameters group (ofSymbol ⟨name⟩ :: ds) = dissectParameters next ds := by
    rw [dissectParameters]
    simp [ofSymbol, group?, hname]
  refine ⟨list (required ++ ofSymbol ⟨"&optional:"⟩ :: (optional ++ ofSymbol ⟨"&key:"⟩ ::
    (keyword ++ ofSymbol ⟨"&rest:"⟩ :: (rest ++ ofSymbol ⟨"&all-keys:"⟩ ::
      (allKeys ++ []))))), ?_⟩
  have hgroups := hallKeys .allKeys [] [] rfl
  rw [← hmarker "&all-keys:" .allKeys rfl .rest] at hgroups
  replace hgroups := hrest .rest _ _ hgroups
  rw [← hmarker "&rest:" .rest rfl .keyword] at hgroups
  replace hgroups := hkeyword .keyword _ _ hgroups
  rw [← hmarker "&key:" .keyword rfl .optional] at hgroups
  replace hgroups := hoptional .optional _ _ hgroups
  rw [← hmarker "&optional:" .optional rfl .required] at hgroups
  replace hgroups := hrequired .required _ _ hgroups
  rw [dissectParameterList, hgroups, List.append_nil]
  exact collectParameters_grouped parameters

/-- Every normal tree is normalized from some tree: each node from a form of its own, with forms
for the nodes below it as parts. -/
theorem exists_normalize_of_normal {a : Ast} (h : a.Normal) : ∃ d : Datum, d.normalize = .ok a := by
  induction h with
  | @node a here below ih =>
      obtain ⟨hexpressible, hdistinct⟩ := here
      -- Each node is written with the special form of its kind; a call always with `funcall`.
      cases a with
      | ref id =>
          obtain ⟨s, space⟩ := id
          cases space with
          | values => exact ⟨ofSymbol s, rfl⟩
          | functions => exact ⟨ofForm .functionReference [ofSymbol s], normalize_ofForm _ _⟩
      | define id value =>
          obtain ⟨s, space⟩ := id
          obtain ⟨d, hd⟩ := ih value List.mem_cons_self
          cases space with
          | values =>
              refine ⟨ofForm .defineVariable [ofSymbol s, d], ?_⟩
              rw [normalize_ofForm, normalizeForm, hd]
              rfl
          | functions =>
              refine ⟨ofForm .defineFunction [ofSymbol s, d], ?_⟩
              rw [normalize_ofForm, normalizeForm, hd]
              rfl
      | assign id value =>
          obtain ⟨s, space⟩ := id
          obtain rfl : space = .values := hexpressible
          obtain ⟨d, hd⟩ := ih value List.mem_cons_self
          refine ⟨ofForm .assignVariable [ofSymbol s, d], ?_⟩
          rw [normalize_ofForm, normalizeForm, hd]
          rfl
      | cond test consequent alternative =>
          obtain ⟨d, hd⟩ := ih test (by simp [Ast.children])
          obtain ⟨e, he⟩ := ih consequent (by simp [Ast.children])
          obtain ⟨f, hf⟩ := ih alternative (by simp [Ast.children])
          refine ⟨ofForm .conditional [d, e, f], ?_⟩
          rw [normalize_ofForm, normalizeForm, hd, he, hf]
          rfl
      | seq expressions =>
          obtain ⟨ds, hds⟩ := exists_normalizeAll ih
          refine ⟨ofForm .sequence ds, ?_⟩
          rw [normalize_ofForm, normalizeForm, hds]
          rfl
      | app operator args =>
          have hexpr : ArgumentsExpressible args := hexpressible
          obtain ⟨d, hd⟩ := ih operator List.mem_cons_self
          have hvalue (b : Ast) (hb : b ∈ args.values) : ∃ d : Datum, d.normalize = .ok b :=
            ih b (List.mem_cons_of_mem _ hb)
          obtain ⟨ds, hds⟩ := exists_positional
            (fun b hb => hvalue b (Arguments.mem_values_of_positional hb)) hexpr.plain
          obtain ⟨es, hes⟩ := exists_keywords
            (fun e he => hvalue e.2 (Arguments.mem_values_of_keywords he)) hexpr.names
          have hargs : dissectArguments .empty (ds ++ es) = .ok args := by
            rw [hds]
            exact hes ⟨args.positional, []⟩ hdistinct
          refine ⟨ofForm .call (d :: (ds ++ es)), ?_⟩
          rw [normalize_ofForm, normalizeForm, hd, hargs]
          rfl
      | lam parameters body =>
          obtain ⟨e, he⟩ := ih body body_mem_children
          obtain ⟨d, hd⟩ := exists_parameterList fun p hp =>
            exists_parameter (hexpressible p hp) fun b hb => ih b (default_mem_children hp hb)
          refine ⟨ofForm .abstraction [d, e], ?_⟩
          rw [normalize_ofForm, normalizeForm, hd, he]
          rfl

/-- The normal forms of trees are the syntax trees that are expressible and whose keywords are
distinct. -/
theorem exists_normalize_iff_normal {a : Ast} :
    (∃ d : Datum, d.normalize = .ok a) ↔ a.Normal := by
  constructor
  · rintro ⟨d, hd⟩
    exact normal_of_normalize hd
  · exact exists_normalize_of_normal

end Datum

/-! ## The image of the normalizer -/

namespace Normalizer

/-- In a booted system, whatever was registered in whatever order, a syntax tree is what some finite
syntax object is normalized to exactly when it is expressible and the keywords of its calls are
distinct. -/
theorem exists_normalize_iff_expressible {sys : ObjectSystem} (hsys : sys.registry.Booted) :
    ∃ nz : Normalizer,
      (∀ s, ∃ log, (new sys).runFrom s = some (.ok nz, ⟨s.heap, log⟩)) ∧
      ∀ a : Ast,
        (∃ (s : Store) (x : Syntax) (d : Datum), s.heap.Unfolds x d ∧
          ∃ log, (nz.normalize x).runFrom s = some (.ok a, ⟨s.heap, log⟩)) ↔
        a.Expressible ∧ a.HasDistinctKeywords := by
  obtain ⟨nz, hz, hnew⟩ := exists_ready hsys
  refine ⟨nz, fun s => hnew s.heap s.log, fun a => ?_⟩
  rw [← Ast.normal_iff, ← Datum.exists_normalize_iff_normal]
  constructor
  · rintro ⟨s, x, d, hx, log, hrun⟩
    obtain ⟨log', hrun'⟩ := hz.answers_normalize hx s.log
    have hsame : some (Except.ok a, (⟨s.heap, log⟩ : Store)) =
        some (d.normalize, ⟨s.heap, log'⟩) := hrun.symm.trans hrun'
    refine ⟨d, ?_⟩
    cases hd : d.normalize with
    | ok b =>
        rw [hd] at hsame
        cases hsame
        rfl
    | error e =>
        rw [hd] at hsame
        cases hsame
  -- The tree is put into an empty heap, and what is normalized is the object at its root.
  · rintro ⟨d, hd⟩
    obtain ⟨h, x, -, hx⟩ := Heap.exists_unfolds .empty d
    obtain ⟨log, hrun⟩ := hz.answers_normalize hx #[]
    rw [hd] at hrun
    exact ⟨⟨h, #[]⟩, x, d, hx, log, hrun⟩

/-- A call with a positional and a keyword argument; the latter is a variable that looks like a
marker. -/
def sampleCall : Ast :=
  .app (.ref ⟨⟨"f"⟩, .functions⟩)
    ⟨[.ref ⟨⟨"x"⟩, .values⟩], [(⟨"k"⟩, .ref ⟨⟨"y:"⟩, .values⟩)]⟩

/-- The call is normalized from some syntax object, but with the marker as its positional argument
it is not. -/
theorem exists_normalize_sampleCall :
    extendedSystem.registry.Booted ∧ ∃ nz : Normalizer,
      (∃ (s : Store) (x : Syntax) (d : Datum), s.heap.Unfolds x d ∧
        ∃ log, (nz.normalize x).runFrom s = some (.ok sampleCall, ⟨s.heap, log⟩)) ∧
      ¬ ∃ (s : Store) (x : Syntax) (d : Datum), s.heap.Unfolds x d ∧
        ∃ log, (nz.normalize x).runFrom s =
          some (.ok (.app (.ref ⟨⟨"f"⟩, .functions⟩) ⟨[.ref ⟨⟨"y:"⟩, .values⟩], []⟩),
            ⟨s.heap, log⟩) := by
  obtain ⟨nz, -, himage⟩ := exists_normalize_iff_expressible booted_extendedSystem
  refine ⟨booted_extendedSystem, nz, (himage _).mpr ⟨?_, ?_⟩, fun h => ?_⟩
  · have hexpressible : Ast.ArgumentsExpressible
        ⟨[.ref ⟨⟨"x"⟩, .values⟩], [(⟨"k"⟩, .ref ⟨⟨"y:"⟩, .values⟩)]⟩ := by
      refine ⟨by simp, fun s hs => ?_⟩
      cases List.mem_singleton.mp hs
      decide
    refine .node hexpressible fun b hb => ?_
    simp only [sampleCall, Ast.children, Arguments.values, List.map_cons, List.map_nil,
      List.cons_append, List.nil_append, List.mem_cons, List.not_mem_nil, or_false] at hb
    rcases hb with rfl | rfl | rfl
    all_goals exact Ast.everywhere_ref trivial
  · refine .node (List.nodup_singleton _) fun b hb => ?_
    simp only [sampleCall, Ast.children, Arguments.values, List.map_cons, List.map_nil,
      List.cons_append, List.nil_append, List.mem_cons, List.not_mem_nil, or_false] at hb
    rcases hb with rfl | rfl | rfl
    all_goals exact Ast.everywhere_ref trivial
  · obtain ⟨hexpressible, -⟩ := Ast.everywhere_iff.mp ((himage _).mp h).1
    exact absurd (hexpressible.plain ⟨"y:"⟩ List.mem_cons_self) (by decide)

end Normalizer
end LispFront
