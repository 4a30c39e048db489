import LispFront.Proofs.Ast.Spelling
import LispFront.Proofs.Layout.Coloring

/-!
# The colours of a syntax tree

The coloured words of a syntax tree are its head words, identifiers, parameter markers and keywords
with their colons.  They are the same at every width, and nothing else is coloured
(`Ast.emit_colored`).

A symbol with an escape character in its name could have a colour sequence of its own there, which
would be deleted with the others.
-/

namespace LispFront
namespace Ast

open Layout Document

/-! ## Words -/

/-- The word of an identifier. -/
def identifierWord (id : Identifier) : Word := ⟨identifierStyle, id.symbol.name⟩

/-- The words of a group of parameters after its marker; an empty group has none. -/
def markedWords (name : String) (parameters : List Word) : List Word :=
  if parameters.isEmpty then [] else ⟨markerStyle, name⟩ :: parameters

mutual

/-- The coloured words of a syntax tree, in order. -/
def words : Ast → List Word
  | .ref id => [⟨headStyle, refHead id.space⟩, identifierWord id]
  | .define id value => ⟨headStyle, defineHead id.space⟩ :: identifierWord id :: value.words
  | .assign id value => ⟨headStyle, assignHead id.space⟩ :: identifierWord id :: value.words
  | .cond test consequent alternative =>
    ⟨headStyle, "if"⟩ :: (test.words ++ (consequent.words ++ alternative.words))
  | .seq expressions => ⟨headStyle, "seq"⟩ :: allWords expressions
  | .app operator ⟨positional, keywords⟩ =>
    ⟨headStyle, "app"⟩ :: (operator.words ++ (allWords positional ++ keywordWords keywords))
  | .lam ⟨required, optional, keyword, rest, allKeys⟩ body =>
    ⟨headStyle, "lambda"⟩ :: ([
      parameterWords required,
      markedWords "&optional:" (parameterWords optional),
      markedWords "&key:" (parameterWords keyword),
      markedWords "&rest:" (parameterWords? rest),
      markedWords "&all-keys:" (parameterWords? allKeys)].flatten ++ body.words)

/-- The words of syntax trees. -/
def allWords : List Ast → List Word
  | [] => []
  | a :: rest => a.words ++ allWords rest

/-- The words of keyword arguments. -/
def keywordWords : List (Symbol × Ast) → List Word
  | [] => []
  | (key, value) :: rest => ⟨keywordStyle, key.name ++ ":"⟩ :: (value.words ++ keywordWords rest)

/-- The words of parameters. -/
def parameterWords : List (Parameter Ast) → List Word
  | [] => []
  | ⟨id, none⟩ :: rest => identifierWord id :: parameterWords rest
  | ⟨id, some value⟩ :: rest => identifierWord id :: (value.words ++ parameterWords rest)

/-- The words of a parameter that may be absent. -/
def parameterWords? : Option (Parameter Ast) → List Word
  | none => []
  | some ⟨id, none⟩ => [identifierWord id]
  | some ⟨id, some value⟩ => identifierWord id :: value.words

end

/-! ## Lists of nodes -/

/-- The words of one parameter. -/
def wordsOfParameter (p : Parameter Ast) : List Word :=
  match p.default with
  | none => [identifierWord p.id]
  | some value => identifierWord p.id :: value.words

theorem allWords_eq_flatMap (as : List Ast) : allWords as = as.flatMap words := by
  induction as with
  | nil => rw [allWords, List.flatMap_nil]
  | cons a as ih => rw [allWords, ih, List.flatMap_cons]

theorem parameterWords_eq_flatMap (ps : List (Parameter Ast)) :
    parameterWords ps = ps.flatMap wordsOfParameter := by
  induction ps with
  | nil => rw [parameterWords, List.flatMap_nil]
  | cons p ps ih =>
      obtain ⟨id, default⟩ := p
      cases default with
      | none =>
          rw [parameterWords, ih, List.flatMap_cons, wordsOfParameter, List.singleton_append]
      | some value =>
          rw [parameterWords, ih, List.flatMap_cons, wordsOfParameter, List.cons_append]

theorem parameterWords?_eq_flatMap (p : Option (Parameter Ast)) :
    parameterWords? p = p.toList.flatMap wordsOfParameter := by
  cases p with
  | none => rw [parameterWords?, Option.toList_none, List.flatMap_nil]
  | some p =>
      obtain ⟨id, default⟩ := p
      cases default with
      | none =>
          rw [parameterWords?, Option.toList_some, List.flatMap_singleton, wordsOfParameter]
      | some value =>
          rw [parameterWords?, Option.toList_some, List.flatMap_singleton, wordsOfParameter]

/-! ## Documents with words -/

/-- Whether the name of a symbol has no escape character. -/
def NoEscape (s : Symbol) : Prop := escape ∉ s.name.toList

instance (s : Symbol) : Decidable (NoEscape s) :=
  inferInstanceAs (Decidable (escape ∉ s.name.toList))

variable {parts : List Document} {ws : List Word}

theorem colors_space : Colors .space [] := colors_filler .space

theorem colors_form {head : String} (hhead : NoEscape ⟨head⟩) (h : ColorsAll parts ws) :
    Colors (form head parts) (⟨headStyle, head⟩ :: ws) :=
  have hwords : ColorsAll (Document.styled headStyle (.text head) :: parts)
    ([⟨headStyle, head⟩] ++ ws) := .cons (colors_word headStyle hhead) h
  ((hwords.separated colors_line).nest 1).group.parenthesized.align

theorem colors_identifier {id : Identifier} (h : NoEscape id.symbol) :
    Colors (identifier id) [identifierWord id] := colors_word identifierStyle h

/-- The document of the node has its words. -/
def ColorsWords (a : Ast) : Prop := Colors a.document a.words

theorem colorsAll_keywordDocuments {keywords : List (Symbol × Ast)}
    (hkeys : ∀ entry ∈ keywords, NoEscape entry.1.withColon)
    (hvalues : ∀ entry ∈ keywords, entry.2.ColorsWords) :
    ColorsAll (keywordDocuments keywords) (keywordWords keywords) := by
  induction keywords with
  | nil =>
      rw [keywordDocuments, keywordWords]
      exact .nil
  | cons entry keywords ih =>
      obtain ⟨key, value⟩ := entry
      rw [keywordDocuments, keywordWords]
      have hkey : Colors (.styled keywordStyle (.text (key.name ++ ":")))
          [⟨keywordStyle, key.name ++ ":"⟩] :=
        colors_word keywordStyle (hkeys (key, value) List.mem_cons_self)
      have hentry : Colors (keywordArgument key value.document)
          (⟨keywordStyle, key.name ++ ":"⟩ :: value.words) :=
        (hkey.append colors_space).append (hvalues (key, value) List.mem_cons_self)
      exact .cons hentry (ih (fun e he => hkeys e (List.mem_cons_of_mem _ he))
        fun e he => hvalues e (List.mem_cons_of_mem _ he))

/-- What is asked of a parameter so that its document has its words. -/
structure ParameterColors (p : Parameter Ast) : Prop where
  name : NoEscape p.id.symbol
  default : ∀ a, p.default = some a → a.ColorsWords

theorem ParameterColors.colors {p : Parameter Ast} (h : ParameterColors p) :
    Colors (parameterDocument p) (wordsOfParameter p) := by
  obtain ⟨id, default⟩ := p
  cases default with
  | none => exact colors_identifier h.name
  | some value =>
      exact (((colors_identifier h.name).append colors_space).append
        (h.default value rfl)).parenthesized

theorem colorsAll_parameters {ps : List (Parameter Ast)} (hps : ∀ p ∈ ps, ParameterColors p) :
    ColorsAll (ps.map parameterDocument) (ps.flatMap wordsOfParameter) :=
  colorsAll_map fun p hp => (hps p hp).colors

theorem colorsAll_markedGroup {name : String} (hname : NoEscape ⟨name⟩)
    {ps : List (Parameter Ast)} (hps : ∀ p ∈ ps, ParameterColors p) :
    ColorsAll (markedGroup name (ps.map parameterDocument))
      (markedWords name (ps.flatMap wordsOfParameter)) := by
  cases ps with
  | nil => exact .nil
  | cons p ps =>
      -- The first parameter has a word, so that the group has a marker in both.
      have hnonempty : markedWords name ((p :: ps).flatMap wordsOfParameter) =
          [⟨markerStyle, name⟩] ++ (p :: ps).flatMap wordsOfParameter := by
        obtain ⟨id, default⟩ := p
        cases default <;> rfl
      rw [hnonempty]
      exact .cons (colors_word markerStyle hname) (colorsAll_parameters hps)

theorem colors_parameterList {ps : Parameters Ast} (hps : ∀ p ∈ ps.all, ParameterColors p) :
    Colors
      (parameterList [parameterDocuments ps.required,
        markedGroup "&optional:" (parameterDocuments ps.optional),
        markedGroup "&key:" (parameterDocuments ps.keyword),
        markedGroup "&rest:" (parameterDocument? ps.rest),
        markedGroup "&all-keys:" (parameterDocument? ps.allKeys)])
      [parameterWords ps.required,
        markedWords "&optional:" (parameterWords ps.optional),
        markedWords "&key:" (parameterWords ps.keyword),
        markedWords "&rest:" (parameterWords? ps.rest),
        markedWords "&all-keys:" (parameterWords? ps.allKeys)].flatten := by
  simp only [parameterDocuments_eq_map, parameterDocument?_eq_map, parameterWords_eq_flatMap,
    parameterWords?_eq_flatMap]
  refine ((colorsAll_flatten ?_).separated colors_space).parenthesized.group
  refine .cons (colorsAll_parameters fun p hp => hps p (Parameters.mem_all_of_required hp)) ?_
  refine .cons (colorsAll_markedGroup (by decide) fun p hp =>
    hps p (Parameters.mem_all_of_optional hp)) ?_
  refine .cons (colorsAll_markedGroup (by decide) fun p hp =>
    hps p (Parameters.mem_all_of_keyword hp)) ?_
  refine .cons (colorsAll_markedGroup (by decide) fun p hp => ?_) (.cons
    (colorsAll_markedGroup (by decide) fun p hp => ?_) .nil)
  · exact hps p (Parameters.mem_all_of_rest (Option.mem_toList.mp hp))
  · exact hps p (Parameters.mem_all_of_allKeys (Option.mem_toList.mp hp))

/-! ## Syntax trees -/

theorem noEscape_refHead (space : Namespace) : NoEscape ⟨refHead space⟩ := by
  cases space <;> decide

theorem noEscape_defineHead (space : Namespace) : NoEscape ⟨defineHead space⟩ := by
  cases space <;> decide

theorem noEscape_assignHead (space : Namespace) : NoEscape ⟨assignHead space⟩ := by
  cases space <;> decide

/-- If no name has an escape character, the document of every tree has its words. -/
theorem colors_document {a : Ast} (ha : a.Named NoEscape) : a.ColorsWords := by
  unfold ColorsWords
  induction ha with
  | @node a here below ih =>
      cases a with
      | ref id =>
          rw [document, words]
          exact colors_form (noEscape_refHead id.space) (.singleton (colors_identifier here))
      | define id value =>
          rw [document, words]
          exact colors_form (noEscape_defineHead id.space)
            (.cons (colors_identifier here) (.singleton (ih value List.mem_cons_self)))
      | assign id value =>
          rw [document, words]
          exact colors_form (noEscape_assignHead id.space)
            (.cons (colors_identifier here) (.singleton (ih value List.mem_cons_self)))
      | cond test consequent alternative =>
          simp only [children, List.mem_cons, List.not_mem_nil, or_false, forall_eq_or_imp,
            forall_eq] at ih
          rw [document, words]
          exact colors_form (by decide) (.cons ih.1 (.cons ih.2.1 (.singleton ih.2.2)))
      | seq expressions =>
          rw [document, words, documents_eq_map, allWords_eq_flatMap]
          exact colors_form (by decide) (colorsAll_map ih)
      | app operator args =>
          obtain ⟨positional, keywords⟩ := args
          have hvalue {v : Ast} (hv : v ∈ Arguments.values ⟨positional, keywords⟩) :
              v.ColorsWords := ih v (List.mem_cons_of_mem _ hv)
          have hpositional : ColorsAll (positional.map document) (positional.flatMap words) :=
            colorsAll_map fun v hv => hvalue (Arguments.mem_values_of_positional hv)
          have hkeywords : ColorsAll (keywordDocuments keywords) (keywordWords keywords) :=
            colorsAll_keywordDocuments (fun e he => here e.1 (List.mem_map_of_mem he))
              fun e he => hvalue (Arguments.mem_values_of_keywords he)
          rw [document, words, documents_eq_map, allWords_eq_flatMap]
          exact colors_form (by decide)
            (.cons (ih operator List.mem_cons_self) (hpositional.append hkeywords))
      | lam parameters body =>
          obtain ⟨required, optional, keyword, rest, allKeys⟩ := parameters
          have hall : ∀ p ∈ Parameters.all ⟨required, optional, keyword, rest, allKeys⟩,
              ParameterColors p :=
            fun p hp => ⟨here p hp, fun v hv => ih v (default_mem_children hp hv)⟩
          rw [document, words]
          exact colors_form (by decide)
            (.cons (colors_parameterList hall) (.singleton (ih body body_mem_children)))

/-- The coloured line of a syntax tree is the plain one with colour sequences in it, and what is
coloured are the words of the tree, each for itself: a sequence is a reset, or it opens the style of
the one word that stands behind it, with a reset behind the word.  The line feed at the end has no
colour, and the last sequence in front of it is a reset. -/
theorem emit_colored {a : Ast} (ha : a.Named NoEscape) (width : Nat) :
    uncolored (a.emit width true) = a.emit width false ∧
    ∃ stretches, Stretch.words stretches = a.words ∧
      stretches.getLast? = some (.filler .lineFeed) ∧
      (∀ color, (a.emit width color).toList = Stretch.written color stretches) ∧
      ∀ before after, (a.emit width true).toList = before ++ escape :: after →
        (resetSequence.toList <+: escape :: after ∨ OpensWord stretches (escape :: after)) ∧
        (escape ∉ after → resetSequence.toList <+: escape :: after) := by
  obtain ⟨hunescaped, hrendered⟩ := colors_document ha
  obtain ⟨stretches, hwords, htext⟩ := hrendered width 0 .broken [] 0
  have hall : Stretch.words (stretches ++ [.filler .lineFeed]) = a.words := by
    rw [Stretch.words_append, hwords]
    exact List.append_nil _
  have hline : ∀ color, (a.emit width color).toList =
      Stretch.written color (stretches ++ [.filler .lineFeed]) := by
    intro color
    rw [emit, String.toList_append, Stretch.written_append, ← htext color]
    rfl
  rw [← hall] at hunescaped
  refine ⟨?_, _, hall, List.getLast?_concat, hline, fun before after hsplit => ?_⟩
  · rw [uncolored, hline true, uncoloredFrom_written hunescaped, ← hline false,
      String.ofList_toList]
  · rw [hline true] at hsplit
    exact ⟨reset_or_opensWord hunescaped hsplit, reset_of_last hunescaped hsplit⟩

/-- The tree of `(lambda (&optional: (x (ref y))) (ref x))`. -/
def optionalFunction : Ast :=
  .lam ⟨[], [⟨⟨⟨"x"⟩, .values⟩, some (.ref ⟨⟨"y"⟩, .values⟩)⟩], [], none, none⟩
    (.ref ⟨⟨"x"⟩, .values⟩)

private theorem named_optionalFunction : optionalFunction.Named NoEscape := by
  refine everywhere_lam ?_ ?_ (everywhere_ref (show NoEscape ⟨"x"⟩ by decide))
  · intro p hp
    rw [List.mem_singleton.mp hp]
    decide
  · intro p hp a hdefault
    rw [List.mem_singleton.mp hp] at hdefault
    obtain rfl := Option.some.inj hdefault
    exact everywhere_ref (show NoEscape ⟨"y"⟩ by decide)

/-- In a width of 26 the function is broken, with colours and without.  Behind the parenthesis and a
reset, a sequence opens the style of the head word. -/
theorem emit_optionalFunction :
    optionalFunction.Named NoEscape ∧
      uncolored (optionalFunction.emit 26 true) =
        "(lambda\n (&optional: (x (ref y)))\n (ref x))\n" ∧
      ∃ stretches, Stretch.words stretches = optionalFunction.words ∧
        OpensWord stretches ((optionalFunction.emit 26 true).toList.drop 5) := by
  obtain ⟨huncolored, stretches, hwords, -, -, hsequences⟩ :=
    emit_colored named_optionalFunction 26
  have hsplit : (optionalFunction.emit 26 true).toList =
      "(\x1b[0m".toList ++ escape :: (optionalFunction.emit 26 true).toList.drop 6 := by
    decide +kernel
  refine ⟨named_optionalFunction, ?_, stretches, hwords, ?_⟩
  · rw [huncolored]
    decide +kernel
  · rcases (hsequences _ _ hsplit).1 with hreset | hopens
    · exact absurd hreset (by decide +kernel)
    · rw [hsplit]
      exact hopens

end Ast
end LispFront
