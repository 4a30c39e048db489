import LispFront.Proofs.Ast.Written
import LispFront.Proofs.Layout.LaidOut
import LispFront.Proofs.Normalize.Names
import LispFront.Proofs.Source.Faults

/-!
# Layouts are spellings

However the document of a syntax tree is laid out, the text spells the written form of the tree, if
all names in it are names of atoms (`stands_document`).  `Document.Stands` says so of a document and
a forest; it is kept by everything that documents are put together with, because a line or a space
is a gap, and a form stands in parentheses.
-/

namespace LispFront

namespace Source

/-! ## Forests up to a place -/

/-- The characters spell the forest up to a place where the next token can begin. -/
def Writes (ds : List Datum) (written : List Char) : Prop :=
  ∃ tokens, Tokens ds tokens ∧ SpelledTo false tokens written

variable {ds ds' : List Datum} {gap written later : List Char}

theorem writes_nil : Writes [] [] := ⟨[], .nil, .nil .nil⟩

theorem writes_atom {s : Symbol} (hs : AtomName s.name.toList) :
    Writes [.ofSymbol s] s.name.toList := by
  have hspelled : SpelledTo false [.atom s.name] ([] ++ s.name.toList ++ []) :=
    .cons .nil nofun (.atom hs) (.nil .nil)
  rw [List.nil_append, List.append_nil] at hspelled
  exact ⟨_, .symbol .nil, hspelled⟩

/-- Two forests are kept apart by a gap. -/
theorem Writes.append_gap (h : Writes ds written) (hgap : Gap gap) (hne : gap ≠ [])
    (hlater : Writes ds' later) : Writes (ds ++ ds') (written ++ (gap ++ later)) := by
  obtain ⟨tokens, htokens, hspelled⟩ := h
  obtain ⟨tokens', htokens', hspelled'⟩ := hlater
  have hapart : SpelledTo true tokens' (gap ++ later) :=
    hspelled'.gap_append hgap fun _ hnil => absurd hnil hne
  exact ⟨_, htokens.append htokens', hspelled.append hapart⟩

/-- A forest in parentheses is a list. -/
theorem Writes.list (h : Writes ds written) : Writes [.list ds] ('(' :: (written ++ [')'])) := by
  obtain ⟨tokens, htokens, hspelled⟩ := h
  have hclose : SpelledTo true [.closeList] [')'] := .mark .closeList rfl
  have hopen : SpelledTo false (.openList :: (tokens ++ [.closeList]))
      ([] ++ ['('] ++ (written ++ [')'])) := .cons .nil nofun .openList (hspelled.append hclose)
  exact ⟨_, .list htokens .nil, hopen⟩

theorem Writes.spells_line (h : Writes ds written) : Spells ds (written ++ ['\n']) := by
  obtain ⟨tokens, htokens, hspelled⟩ := h
  have hline := hspelled.spelled.spelledTo_line (.nil .nil)
  rw [List.append_nil] at hline
  exact ⟨tokens, htokens, hline.spelled⟩

end Source

namespace Layout
namespace Document

open Source

/-- However the document is laid out, it spells the forest. -/
def Stands (d : Document) (ds : List Datum) : Prop :=
  ∀ written, LaidOut d written → Writes ds written

/-- The documents stand for a forest, each for its share. -/
inductive StandsAll : List Document → List Datum → Prop
  | nil : StandsAll [] []
  | cons {d : Document} {documents : List Document} {ds rest : List Datum} (hd : d.Stands ds)
      (hrest : StandsAll documents rest) : StandsAll (d :: documents) (ds ++ rest)

/-- However the document is laid out, it is a gap that is not empty. -/
def Separates (d : Document) : Prop := ∀ written, LaidOut d written → Gap written ∧ written ≠ []

variable {d e : Document} {documents later : List Document} {ds ds' : List Datum}

theorem gap_replicate_space (n : Nat) : Gap (List.replicate n ' ') := by
  induction n with
  | zero => exact .nil
  | succ n ih => exact .separator (by decide) ih

theorem separates_line : Separates .line := by
  intro written h
  cases h with
  | flat => exact ⟨.separator (by decide) .nil, List.cons_ne_nil _ _⟩
  | broken indent =>
      exact ⟨.separator (by decide) (gap_replicate_space indent), List.cons_ne_nil _ _⟩

theorem separates_space : Separates .space := by
  intro written h
  rw [h.eq_toList]
  exact ⟨.separator (by decide) .nil, List.cons_ne_nil _ _⟩

theorem stands_atom {s : Symbol} (hs : AtomName s.name.toList) :
    (text s.name).Stands [.ofSymbol s] := by
  intro written h
  rw [h.eq_toList]
  exact writes_atom hs

theorem Stands.styled (h : d.Stands ds) (style : Style) : (styled style d).Stands ds :=
  fun written hwritten => h written hwritten.of_styled

theorem Stands.group (h : d.Stands ds) : (group d).Stands ds := by
  intro written hwritten
  cases hwritten with
  | group hbody => exact h written hbody

theorem Stands.nest (h : d.Stands ds) (columns : Nat) : (nest columns d).Stands ds := by
  intro written hwritten
  cases hwritten with
  | nest hbody => exact h written hbody

theorem Stands.align (h : d.Stands ds) : (align d).Stands ds := by
  intro written hwritten
  cases hwritten with
  | align hbody => exact h written hbody

theorem Stands.parenthesized (h : d.Stands ds) : (parenthesized d).Stands [.list ds] := by
  intro written hwritten
  obtain ⟨inner, rfl, hinner⟩ := hwritten.exists_of_parenthesized
  exact (h inner hinner).list

theorem Stands.append {separator : Document} (h : d.Stands ds) (hseparator : separator.Separates)
    (hlater : e.Stands ds') : (d ++ separator ++ e).Stands (ds ++ ds') := by
  intro written hwritten
  obtain ⟨before, after, rfl, hbefore, hafter⟩ := hwritten.exists_of_append
  obtain ⟨first, gap, rfl, hfirst, hgap⟩ := hbefore.exists_of_append
  obtain ⟨hgap, hne⟩ := hseparator gap hgap
  rw [List.append_assoc]
  exact (h first hfirst).append_gap hgap hne (hlater after hafter)

theorem StandsAll.append (h : StandsAll documents ds) (hlater : StandsAll later ds') :
    StandsAll (documents ++ later) (ds ++ ds') := by
  induction h with
  | nil => exact hlater
  | cons hd _ ih =>
      rw [List.append_assoc]
      exact .cons hd ih

theorem StandsAll.separated {separator : Document} (hseparator : separator.Separates)
    (h : StandsAll documents ds) : (separated separator documents).Stands ds := by
  induction h with
  | nil =>
      intro written hwritten
      cases hwritten
      exact writes_nil
  | @cons d documents ds rest hd hrest ih =>
      cases hrest with
      | nil =>
          rw [List.append_nil]
          exact hd
      | cons => exact hd.append hseparator ih

end Document
end Layout

namespace Symbol

/-- Whether the symbol is written as one atom. -/
def IsAtom (s : Symbol) : Prop := Source.AtomName s.name.toList

instance (s : Symbol) : Decidable s.IsAtom :=
  inferInstanceAs (Decidable (Source.AtomName s.name.toList))

end Symbol

namespace Ast

open Layout Source Document
open Datum (ofSymbol)

variable {parts : List Document} {ds : List Datum}

theorem stands_form {head : String} (hhead : Symbol.IsAtom ⟨head⟩) (h : StandsAll parts ds) :
    (form head parts).Stands [writtenForm head ds] := by
  have hwords : StandsAll (Document.styled headStyle (.text head) :: parts)
      ([ofSymbol ⟨head⟩] ++ ds) := .cons ((stands_atom hhead).styled headStyle) h
  exact ((hwords.separated separates_line).nest 1).group.parenthesized.align

theorem stands_identifier {id : Identifier} (h : Symbol.IsAtom id.symbol) :
    (identifier id).Stands [ofSymbol id.symbol] :=
  (stands_atom h).styled identifierStyle

theorem stands_keywordArgument {key : Symbol} {value : Document} {d : Datum}
    (hkey : Symbol.IsAtom key.withColon) (hvalue : value.Stands [d]) :
    (keywordArgument key value).Stands [ofSymbol key.withColon, d] :=
  ((stands_atom hkey).styled keywordStyle).append separates_space hvalue

theorem stands_defaulted {id : Identifier} {value : Document} {d : Datum}
    (hid : Symbol.IsAtom id.symbol) (hvalue : value.Stands [d]) :
    (defaulted id value).Stands [.list [ofSymbol id.symbol, d]] :=
  ((stands_identifier hid).append separates_space hvalue).parenthesized

/-! ## Lists of nodes -/

/-- The document of the node stands for its written form. -/
def StandsForWritten (a : Ast) : Prop := a.document.Stands [a.written]

theorem standsAll_map {α : Type} {f : α → Document} {g : α → Datum} {xs : List α}
    (h : ∀ x ∈ xs, (f x).Stands [g x]) : StandsAll (xs.map f) (xs.map g) := by
  induction xs with
  | nil => exact .nil
  | cons x xs ih =>
      exact .cons (h x List.mem_cons_self) (ih fun y hy => h y (List.mem_cons_of_mem _ hy))

theorem documents_eq_map (as : List Ast) : documents as = as.map document := by
  induction as with
  | nil => rw [documents, List.map_nil]
  | cons a as ih => rw [documents, ih, List.map_cons]

theorem standsAll_keywordDocuments {keywords : List (Symbol × Ast)}
    (hkeys : ∀ entry ∈ keywords, Symbol.IsAtom entry.1.withColon)
    (hvalues : ∀ entry ∈ keywords, entry.2.StandsForWritten) :
    StandsAll (keywordDocuments keywords) (writtenKeywords keywords) := by
  induction keywords with
  | nil =>
      rw [keywordDocuments, writtenKeywords]
      exact .nil
  | cons entry keywords ih =>
      obtain ⟨key, value⟩ := entry
      rw [keywordDocuments, writtenKeywords]
      have hrest := ih (fun e he => hkeys e (List.mem_cons_of_mem _ he))
        fun e he => hvalues e (List.mem_cons_of_mem _ he)
      exact .cons (stands_keywordArgument (hkeys (key, value) List.mem_cons_self)
        (hvalues (key, value) List.mem_cons_self)) hrest

/-! ## Parameters -/

/-- The document of one parameter. -/
def parameterDocument (p : Parameter Ast) : Document :=
  match p.default with
  | none => identifier p.id
  | some value => defaulted p.id value.document

theorem parameterDocuments_eq_map (ps : List (Parameter Ast)) :
    parameterDocuments ps = ps.map parameterDocument := by
  induction ps with
  | nil => rw [parameterDocuments, List.map_nil]
  | cons p ps ih =>
      obtain ⟨id, default⟩ := p
      cases default with
      | none => rw [parameterDocuments, ih, List.map_cons, parameterDocument]
      | some value => rw [parameterDocuments, ih, List.map_cons, parameterDocument]

theorem parameterDocument?_eq_map (p : Option (Parameter Ast)) :
    parameterDocument? p = p.toList.map parameterDocument := by
  cases p with
  | none => rw [parameterDocument?, Option.toList_none, List.map_nil]
  | some p =>
      obtain ⟨id, default⟩ := p
      cases default with
      | none => rw [parameterDocument?, Option.toList_some, List.map_singleton, parameterDocument]
      | some value =>
          rw [parameterDocument?, Option.toList_some, List.map_singleton, parameterDocument]

/-- What is asked of a parameter so that its document stands for it. -/
structure ParameterStands (p : Parameter Ast) : Prop where
  name : Symbol.IsAtom p.id.symbol
  default : ∀ a, p.default = some a → a.StandsForWritten

theorem ParameterStands.stands {p : Parameter Ast} (h : ParameterStands p) :
    (parameterDocument p).Stands [writtenParameter p] := by
  obtain ⟨id, default⟩ := p
  cases default with
  | none => exact stands_identifier h.name
  | some value => exact stands_defaulted h.name (h.default value rfl)

/-- A group of parameters in front of others: nothing if it is empty, or else its marker first. -/
theorem standsAll_markedGroup {name : String} (hname : Symbol.IsAtom ⟨name⟩)
    {ps : List (Parameter Ast)} (hps : ∀ p ∈ ps, ParameterStands p)
    {groups : List (String × List Datum)}
    (hrest : StandsAll parts (writtenGroups groups)) :
    StandsAll (markedGroup name (ps.map parameterDocument) ++ parts)
      (writtenGroups ((name, ps.map writtenParameter) :: groups)) := by
  cases ps with
  | nil => exact hrest
  | cons p ps =>
      have hall : StandsAll ((p :: ps).map parameterDocument) ((p :: ps).map writtenParameter) :=
        standsAll_map fun q hq => (hps q hq).stands
      have hmarker : (marker name).Stands [ofSymbol ⟨name⟩] :=
        (stands_atom hname).styled markerStyle
      exact .cons hmarker (hall.append hrest)

theorem standsAll_markedGroups {groups : List (String × List (Parameter Ast))}
    (hnames : ∀ group ∈ groups, Symbol.IsAtom ⟨group.1⟩)
    (hps : ∀ group ∈ groups, ∀ p ∈ group.2, ParameterStands p) :
    StandsAll (groups.map fun group => markedGroup group.1 (group.2.map parameterDocument)).flatten
      (writtenGroups (groups.map (Prod.map id (List.map writtenParameter)))) := by
  induction groups with
  | nil => exact .nil
  | cons group groups ih =>
      exact standsAll_markedGroup (hnames group List.mem_cons_self) (hps group List.mem_cons_self)
        (ih (fun g hg => hnames g (List.mem_cons_of_mem _ hg))
          fun g hg => hps g (List.mem_cons_of_mem _ hg))

theorem isAtom_of_mem_markedGroups {ps : Parameters Ast} {group : String × List (Parameter Ast)}
    (h : group ∈ markedGroups ps) : Symbol.IsAtom ⟨group.1⟩ := by
  have hmarkers : ∀ name ∈ markerNames, Symbol.IsAtom ⟨name⟩ := by decide
  exact hmarkers group.1 (List.mem_map_of_mem (f := Prod.fst) h)

theorem stands_parameterList {ps : Parameters Ast} (hps : ∀ p ∈ ps.all, ParameterStands p) :
    (parameterList [parameterDocuments ps.required,
        markedGroup "&optional:" (parameterDocuments ps.optional),
        markedGroup "&key:" (parameterDocuments ps.keyword),
        markedGroup "&rest:" (parameterDocument? ps.rest),
        markedGroup "&all-keys:" (parameterDocument? ps.allKeys)]).Stands
      [.list (writtenParameterList ps)] := by
  have hrequired : StandsAll (ps.required.map parameterDocument)
      (ps.required.map writtenParameter) :=
    standsAll_map fun p hp => (hps p (Parameters.mem_all_of_required hp)).stands
  have hgroups := standsAll_markedGroups (fun _ => isAtom_of_mem_markedGroups)
    fun group hgroup p hp => hps p (mem_all_of_markedGroups hgroup hp)
  rw [parameterDocuments_eq_map, parameterDocuments_eq_map, parameterDocuments_eq_map,
    parameterDocument?_eq_map, parameterDocument?_eq_map]
  exact ((hrequired.append hgroups).separated separates_space).parenthesized.group

/-! ## Syntax trees -/

theorem isAtom_refHead (space : Namespace) : Symbol.IsAtom ⟨refHead space⟩ := by
  cases space <;> decide

theorem isAtom_defineHead (space : Namespace) : Symbol.IsAtom ⟨defineHead space⟩ := by
  cases space <;> decide

theorem isAtom_assignHead (space : Namespace) : Symbol.IsAtom ⟨assignHead space⟩ := by
  cases space <;> decide

/-- If all its names are names of atoms, a tree is laid out as its written form, however it is. -/
theorem stands_document {a : Ast} (ha : a.Named Symbol.IsAtom) : a.StandsForWritten := by
  unfold StandsForWritten
  induction ha with
  | @node a here below ih =>
      cases a with
      | ref id =>
          rw [document, written]
          exact stands_form (isAtom_refHead id.space) (.cons (stands_identifier here) .nil)
      | define id value =>
          rw [document, written]
          exact stands_form (isAtom_defineHead id.space)
            (.cons (stands_identifier here) (.cons (ih value List.mem_cons_self) .nil))
      | assign id value =>
          rw [document, written]
          exact stands_form (isAtom_assignHead id.space)
            (.cons (stands_identifier here) (.cons (ih value List.mem_cons_self) .nil))
      | cond test consequent alternative =>
          simp only [children, List.mem_cons, List.not_mem_nil, or_false, forall_eq_or_imp,
            forall_eq] at ih
          rw [document, written]
          exact stands_form (by decide) (.cons ih.1 (.cons ih.2.1 (.cons ih.2.2 .nil)))
      | seq expressions =>
          rw [document, written, documents_eq_map, writtenAll_eq_map]
          exact stands_form (by decide) (standsAll_map ih)
      | app operator args =>
          have hvalue {v : Ast} (hv : v ∈ args.values) : v.StandsForWritten :=
            ih v (List.mem_cons_of_mem _ hv)
          have hpositional : StandsAll (args.positional.map document)
              (args.positional.map written) :=
            standsAll_map fun v hv => hvalue (Arguments.mem_values_of_positional hv)
          have hkeywords : StandsAll (keywordDocuments args.keywords)
              (writtenKeywords args.keywords) :=
            standsAll_keywordDocuments (fun e he => here e.1 (List.mem_map_of_mem he))
              fun e he => hvalue (Arguments.mem_values_of_keywords he)
          rw [written_app, document, documents_eq_map]
          exact stands_form (by decide)
            (.cons (ih operator List.mem_cons_self) (hpositional.append hkeywords))
      | lam parameters body =>
          have hall : ∀ p ∈ parameters.all, ParameterStands p :=
            fun p hp => ⟨here p hp, fun v hv => ih v (default_mem_children hp hv)⟩
          have hbody : body.document.Stands [body.written] := ih body body_mem_children
          rw [written_lam, document]
          exact stands_form (by decide) (.cons (stands_parameterList hall) (.cons hbody .nil))

/-- A plain text that may be handed on for the tree, as far as a layout is promised: a layout of its
document and a line feed. -/
def MayEmit (a : Ast) (text : String) : Prop :=
  ∃ written, LaidOut a.document written ∧ text.toList = written ++ ['\n']

theorem mayEmit_emit (a : Ast) (width : Nat) : a.MayEmit (a.emit width false) := by
  refine ⟨_, laidOut_render width a.document, ?_⟩
  rw [emit, String.toList_append]
  rfl

/-- Whatever is handed on for a tree spells its written form. -/
theorem MayEmit.spells {a : Ast} {text : String} (h : a.MayEmit text) (ha : a.Named Symbol.IsAtom) :
    Spells [a.written] text.toList := by
  obtain ⟨written, hwritten, htext⟩ := h
  rw [htext]
  exact (stands_document ha written hwritten).spells_line

end Ast
end LispFront
