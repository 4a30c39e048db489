import LispFront.Proofs.Ast.Spelling
import LispFront.Proofs.Layout.Shape

/-!
# Which forms of a syntax tree are broken

The outline of a syntax tree is its shape on one line: a form for every node, and words for all that
is never broken, such as the spaces of a parameter list and the one after a keyword.  The plain
rendering at any width is the outline with some forms broken (`Ast.toText_shape`).

A symbol with a line feed in its name would end a line that the renderer does not know of.  Without
one, the columns that it counts are those of the text that stands there.
-/

namespace LispFront
namespace Ast

open Layout Document

/-! ## Outlines -/

/-- The shapes of a group of parameters after its marker; an empty group has none. -/
def markedOutlines (name : String) (parameters : List Shape) : List Shape :=
  if parameters.isEmpty then [] else .word name :: parameters

mutual

/-- The shape of a syntax tree with no form broken. -/
def outline : Ast → Shape
  | .ref id => .form false [.word (refHead id.space), .word id.symbol.name]
  | .define id value =>
    .form false [.word (defineHead id.space), .word id.symbol.name, value.outline]
  | .assign id value =>
    .form false [.word (assignHead id.space), .word id.symbol.name, value.outline]
  | .cond test consequent alternative =>
    .form false [.word "if", test.outline, consequent.outline, alternative.outline]
  | .seq expressions => .form false (.word "seq" :: outlines expressions)
  | .app operator ⟨positional, keywords⟩ =>
    .form false (.word "app" :: operator.outline ::
      (outlines positional ++ keywordOutlines keywords))
  | .lam ⟨required, optional, keyword, rest, allKeys⟩ body =>
    .form false [
      .word "lambda",
      .parenthesized (.spaced [
        parameterOutlines required,
        markedOutlines "&optional:" (parameterOutlines optional),
        markedOutlines "&key:" (parameterOutlines keyword),
        markedOutlines "&rest:" (parameterOutline? rest),
        markedOutlines "&all-keys:" (parameterOutline? allKeys)].flatten),
      body.outline]

/-- The shapes of syntax trees. -/
def outlines : List Ast → List Shape
  | [] => []
  | a :: rest => a.outline :: outlines rest

/-- The shapes of keyword arguments. -/
def keywordOutlines : List (Symbol × Ast) → List Shape
  | [] => []
  | (key, value) :: rest =>
    .sequence [.word (key.name ++ ":"), .word " ", value.outline] :: keywordOutlines rest

/-- The shapes of parameters. -/
def parameterOutlines : List (Parameter Ast) → List Shape
  | [] => []
  | ⟨id, none⟩ :: rest => .word id.symbol.name :: parameterOutlines rest
  | ⟨id, some value⟩ :: rest =>
    .parenthesized (.sequence [.word id.symbol.name, .word " ", value.outline]) ::
      parameterOutlines rest

/-- The shape of a parameter that may be absent. -/
def parameterOutline? : Option (Parameter Ast) → List Shape
  | none => []
  | some ⟨id, none⟩ => [.word id.symbol.name]
  | some ⟨id, some value⟩ =>
    [.parenthesized (.sequence [.word id.symbol.name, .word " ", value.outline])]

end

/-- The text of a syntax tree on one line. -/
def oneLine (a : Ast) : String := String.ofList (a.outline.write [])

/-! ## Lists of nodes -/

/-- The shape of one parameter. -/
def parameterOutline (p : Parameter Ast) : Shape :=
  match p.default with
  | none => .word p.id.symbol.name
  | some value => .parenthesized (.sequence [.word p.id.symbol.name, .word " ", value.outline])

theorem outlines_eq_map (as : List Ast) : outlines as = as.map outline := by
  induction as with
  | nil => rw [outlines, List.map_nil]
  | cons a as ih => rw [outlines, ih, List.map_cons]

theorem parameterOutlines_eq_map (ps : List (Parameter Ast)) :
    parameterOutlines ps = ps.map parameterOutline := by
  induction ps with
  | nil => rw [parameterOutlines, List.map_nil]
  | cons p ps ih =>
      obtain ⟨id, default⟩ := p
      cases default with
      | none => rw [parameterOutlines, ih, List.map_cons, parameterOutline]
      | some value => rw [parameterOutlines, ih, List.map_cons, parameterOutline]

theorem parameterOutline?_eq_map (p : Option (Parameter Ast)) :
    parameterOutline? p = p.toList.map parameterOutline := by
  cases p with
  | none => rw [parameterOutline?, Option.toList_none, List.map_nil]
  | some p =>
      obtain ⟨id, default⟩ := p
      cases default with
      | none => rw [parameterOutline?, Option.toList_some, List.map_singleton, parameterOutline]
      | some value =>
          rw [parameterOutline?, Option.toList_some, List.map_singleton, parameterOutline]

/-! ## Documents with outlines -/

/-- Whether the name of a symbol has no line feed. -/
def OnLine (s : Symbol) : Prop := '\n' ∉ s.name.toList

instance (s : Symbol) : Decidable (OnLine s) := inferInstanceAs (Decidable ('\n' ∉ s.name.toList))

variable {parts : List Document} {ss : List Shape}

/-- The words of a form are shown by its head and the shapes of its parts. -/
theorem shows_words {head : String} (hhead : OnLine ⟨head⟩) (h : List.Forall₂ Shows parts ss) :
    List.Forall₂ Shows (Document.styled headStyle (.text head) :: parts) (.word head :: ss) :=
  .cons ((shows_word hhead).styled headStyle) h

theorem shows_identifier {id : Identifier} (h : OnLine id.symbol) :
    Shows (identifier id) (.word id.symbol.name) := (shows_word h).styled identifierStyle

theorem shows_map {α : Type} {f : α → Document} {g : α → Shape} {xs : List α}
    (h : ∀ x ∈ xs, Shows (f x) (g x)) : List.Forall₂ Shows (xs.map f) (xs.map g) :=
  List.forall₂_map_left_iff.mpr (List.forall₂_map_right_iff.mpr (List.forall₂_same.mpr h))

/-- The document of the node is shown by its outline. -/
def ShowsOutline (a : Ast) : Prop := Shows a.document a.outline

theorem shows_keywordDocuments {keywords : List (Symbol × Ast)}
    (hkeys : ∀ entry ∈ keywords, OnLine entry.1.withColon)
    (hvalues : ∀ entry ∈ keywords, entry.2.ShowsOutline) :
    List.Forall₂ Shows (keywordDocuments keywords) (keywordOutlines keywords) := by
  induction keywords with
  | nil =>
      rw [keywordDocuments, keywordOutlines]
      exact .nil
  | cons entry keywords ih =>
      obtain ⟨key, value⟩ := entry
      rw [keywordDocuments, keywordOutlines]
      have hkey : Shows (.text (key.name ++ ":")) (.word (key.name ++ ":")) :=
        shows_word (hkeys (key, value) List.mem_cons_self)
      have hrest := ih (fun e he => hkeys e (List.mem_cons_of_mem _ he))
        fun e he => hvalues e (List.mem_cons_of_mem _ he)
      exact .cons ((hkey.styled keywordStyle).append_space
        (hvalues (key, value) List.mem_cons_self)) hrest

/-- What is asked of a parameter so that its document is shown by its outline. -/
structure ParameterShows (p : Parameter Ast) : Prop where
  name : OnLine p.id.symbol
  default : ∀ a, p.default = some a → a.ShowsOutline

theorem ParameterShows.shows {p : Parameter Ast} (h : ParameterShows p) :
    Shows (parameterDocument p) (parameterOutline p) := by
  obtain ⟨id, default⟩ := p
  cases default with
  | none => exact shows_identifier h.name
  | some value => exact ((shows_identifier h.name).append_space (h.default value rfl)).parenthesized

theorem shows_markedGroup {name : String} (hname : OnLine ⟨name⟩) {ps : List (Parameter Ast)}
    (hps : ∀ p ∈ ps, ParameterShows p) :
    List.Forall₂ Shows (markedGroup name (ps.map parameterDocument))
      (markedOutlines name (ps.map parameterOutline)) := by
  cases ps with
  | nil => exact .nil
  | cons p ps =>
      have hmarker : Shows (marker name) (.word name) := (shows_word hname).styled markerStyle
      exact .cons hmarker (shows_map fun q hq => (hps q hq).shows)

theorem shows_flatten {groups : List (List Document)} {shapes : List (List Shape)}
    (h : List.Forall₂ (List.Forall₂ Shows) groups shapes) :
    List.Forall₂ Shows groups.flatten shapes.flatten := by
  induction h with
  | nil => exact .nil
  | cons hgroup _ ih => exact List.rel_append hgroup ih

theorem shows_parameterList {ps : Parameters Ast} (hps : ∀ p ∈ ps.all, ParameterShows p) :
    Shows
      (parameterList [parameterDocuments ps.required,
        markedGroup "&optional:" (parameterDocuments ps.optional),
        markedGroup "&key:" (parameterDocuments ps.keyword),
        markedGroup "&rest:" (parameterDocument? ps.rest),
        markedGroup "&all-keys:" (parameterDocument? ps.allKeys)])
      (.parenthesized (.spaced [parameterOutlines ps.required,
        markedOutlines "&optional:" (parameterOutlines ps.optional),
        markedOutlines "&key:" (parameterOutlines ps.keyword),
        markedOutlines "&rest:" (parameterOutline? ps.rest),
        markedOutlines "&all-keys:" (parameterOutline? ps.allKeys)].flatten)) := by
  simp only [parameterDocuments_eq_map, parameterDocument?_eq_map, parameterOutlines_eq_map,
    parameterOutline?_eq_map]
  refine (shows_spaced (shows_flatten ?_)).parenthesized.group
  refine .cons (shows_map fun p hp => (hps p (Parameters.mem_all_of_required hp)).shows) ?_
  refine .cons (shows_markedGroup (by decide) fun p hp =>
    hps p (Parameters.mem_all_of_optional hp)) ?_
  refine .cons (shows_markedGroup (by decide) fun p hp =>
    hps p (Parameters.mem_all_of_keyword hp)) ?_
  refine .cons (shows_markedGroup (by decide) fun p hp => ?_) (.cons
    (shows_markedGroup (by decide) fun p hp => ?_) .nil)
  · exact hps p (Parameters.mem_all_of_rest (Option.mem_toList.mp hp))
  · exact hps p (Parameters.mem_all_of_allKeys (Option.mem_toList.mp hp))

/-! ## Syntax trees -/

theorem onLine_refHead (space : Namespace) : OnLine ⟨refHead space⟩ := by
  cases space <;> decide

theorem onLine_defineHead (space : Namespace) : OnLine ⟨defineHead space⟩ := by
  cases space <;> decide

theorem onLine_assignHead (space : Namespace) : OnLine ⟨assignHead space⟩ := by
  cases space <;> decide

/-- Every node is a form, and the words of its document are shown by those of its outline. -/
theorem exists_words_of_children {a : Ast} (here : NamedNode OnLine a)
    (hbelow : ∀ b ∈ a.children, b.ShowsOutline) :
    ∃ words ss, a.document = formOf words ∧ a.outline = .form false ss ∧
      List.Forall₂ Shows words ss := by
  cases a with
  | ref id =>
      exact ⟨_, _, by rw [document]; rfl, by rw [outline],
        shows_words (onLine_refHead id.space) (.cons (shows_identifier here) .nil)⟩
  | define id value =>
      exact ⟨_, _, by rw [document]; rfl, by rw [outline],
        shows_words (onLine_defineHead id.space) (.cons (shows_identifier here)
          (.cons (hbelow value List.mem_cons_self) .nil))⟩
  | assign id value =>
      exact ⟨_, _, by rw [document]; rfl, by rw [outline],
        shows_words (onLine_assignHead id.space) (.cons (shows_identifier here)
          (.cons (hbelow value List.mem_cons_self) .nil))⟩
  | cond test consequent alternative =>
      simp only [children, List.mem_cons, List.not_mem_nil, or_false, forall_eq_or_imp,
        forall_eq] at hbelow
      exact ⟨_, _, by rw [document]; rfl, by rw [outline],
        shows_words (by decide) (.cons hbelow.1 (.cons hbelow.2.1 (.cons hbelow.2.2 .nil)))⟩
  | seq expressions =>
      refine ⟨_, _, by rw [document]; rfl, by rw [outline], shows_words (by decide) ?_⟩
      rw [documents_eq_map, outlines_eq_map]
      exact shows_map hbelow
  | app operator args =>
      obtain ⟨positional, keywords⟩ := args
      have hvalue {v : Ast} (hv : v ∈ Arguments.values ⟨positional, keywords⟩) : v.ShowsOutline :=
        hbelow v (List.mem_cons_of_mem _ hv)
      refine ⟨_, _, by rw [document]; rfl, by rw [outline], shows_words (by decide) ?_⟩
      refine .cons (hbelow operator List.mem_cons_self) (List.rel_append ?_ ?_)
      · rw [documents_eq_map, outlines_eq_map]
        exact shows_map fun v hv => hvalue (Arguments.mem_values_of_positional hv)
      · exact shows_keywordDocuments (fun e he => here e.1 (List.mem_map_of_mem he))
          fun e he => hvalue (Arguments.mem_values_of_keywords he)
  | lam parameters body =>
      obtain ⟨required, optional, keyword, rest, allKeys⟩ := parameters
      have hall : ∀ p ∈ Parameters.all ⟨required, optional, keyword, rest, allKeys⟩,
          ParameterShows p :=
        fun p hp => ⟨here p hp, fun v hv => hbelow v (default_mem_children hp hv)⟩
      exact ⟨_, _, by rw [document]; rfl, by rw [outline],
        shows_words (by decide) (.cons (shows_parameterList hall)
          (.cons (hbelow body body_mem_children) .nil))⟩

/-- If no name has a line feed, every document is shown by the outline of its tree. -/
theorem shows_document {a : Ast} (ha : a.Named OnLine) : a.ShowsOutline := by
  unfold ShowsOutline
  induction ha with
  | @node a here _ ih =>
      obtain ⟨words, ss, hdocument, houtline, hwords⟩ := exists_words_of_children here ih
      rw [hdocument, houtline]
      exact shows_formOf hwords

theorem Named.exists_words {a : Ast} (ha : a.Named OnLine) :
    ∃ words ss, a.document = formOf words ∧ a.outline = .form false ss ∧
      List.Forall₂ Shows words ss := by
  cases ha with
  | node here hbelow =>
      exact exists_words_of_children here fun b hb => shows_document (hbelow b hb)

/-- The plain rendering of a syntax tree is its one line, with some of its forms broken: all parts
of such a form stand on lines of their own, one column to the right of its parenthesis.  No form in
an unbroken form is broken, and if the one line is within the width, none is. -/
theorem toText_shape {a : Ast} (ha : a.Named OnLine) (width : Nat) :
    '\n' ∉ a.oneLine.toList ∧
    ∃ t : Shape, t.unmark = a.outline ∧ t.WellBroken ∧
      a.toText width false = String.ofList (t.write []) ∧
      (Text.columns a.oneLine ≤ width → t = a.outline) := by
  have hline : '\n' ∉ a.outline.write [] := (shows_document ha).straight [] List.not_mem_nil
  obtain ⟨words, ss, hdocument, houtline, hwords⟩ := ha.exists_words
  obtain ⟨t, hunmark, hbroken, htext, hflat⟩ := exists_shape_of_formOf hwords width
  rw [← houtline] at hunmark hflat
  refine ⟨?_, t, hunmark, hbroken, ?_, fun hwidth => hflat ?_⟩
  · rw [oneLine, String.toList_ofList]
    exact hline
  · rw [← htext, toText, hdocument, String.ofList_toList]
  · rw [columnAfter_of_not_mem hline]
    exact hwidth

/-- The tree of `(app (fref f) (ref x) k: (ref v))`. -/
def keywordCall : Ast :=
  .app (.ref ⟨⟨"f"⟩, .functions⟩)
    ⟨[.ref ⟨⟨"x"⟩, .values⟩], [(⟨"k"⟩, .ref ⟨⟨"v"⟩, .values⟩)]⟩

private theorem named_keywordCall : keywordCall.Named OnLine := by
  have hkeys : ∀ key ∈ [(⟨"k"⟩ : Symbol)], OnLine key.withColon := by decide
  refine .node hkeys fun b hb => ?_
  simp only [keywordCall, children, Arguments.values, List.map_cons, List.map_nil,
    List.cons_append, List.nil_append, List.mem_cons, List.not_mem_nil, or_false] at hb
  rcases hb with rfl | rfl | rfl
  · exact everywhere_ref (show OnLine ⟨"f"⟩ by decide)
  · exact everywhere_ref (show OnLine ⟨"x"⟩ by decide)
  · exact everywhere_ref (show OnLine ⟨"v"⟩ by decide)

/-- In a width of 12 the call is broken, but not at the space after the keyword; in 33 it is on one
line. -/
theorem toText_keywordCall :
    keywordCall.Named OnLine ∧
      keywordCall.toText 12 false = "(app\n (fref f)\n (ref x)\n k: (ref v))" ∧
      (∃ t : Shape, t.unmark = keywordCall.outline ∧ t.WellBroken ∧
        keywordCall.toText 12 false = String.ofList (t.write [])) ∧
      keywordCall.toText 33 false = "(app (fref f) (ref x) k: (ref v))" := by
  obtain ⟨-, t, hunmark, hbroken, htext, -⟩ := toText_shape named_keywordCall 12
  obtain ⟨-, t', -, -, htext', hflat⟩ := toText_shape named_keywordCall 33
  refine ⟨named_keywordCall, by decide +kernel, ⟨t, hunmark, hbroken, htext⟩, ?_⟩
  · rw [htext', hflat (by decide +kernel)]
    decide +kernel

end Ast
end LispFront
