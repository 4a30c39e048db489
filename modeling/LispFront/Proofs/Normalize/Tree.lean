import LispFront.Normalize.Normalizer

/-!
# Normalization of trees

The normalizer without an object system and without a heap: a structural recursion on finite trees
that takes the elements of a list by their place.  A special form with the wrong number of elements
is refused before any part of it is looked at; otherwise the parts are taken from left to right,
and the first that fails is the answer.
-/

namespace LispFront

namespace Datum

/-- What kind of syntax object a tree is, in words. -/
def kind : Datum → String
  | symbol _ => "syntax symbol"
  | string _ => "syntax string"
  | number _ => "syntax number"
  | list _ => "syntax list"

/-- The kind and the written form of a tree. -/
def describe (d : Datum) : String := d.kind ++ " " ++ d.toText

/-- The symbol that a tree is. -/
def asSymbol : Datum → Except Error Symbol
  | symbol s => .ok s.symbol
  | d => .error (.identity "syntax symbol" d.describe)

/-- The keyword that a tree marks. -/
def keyword? : Datum → Option Symbol
  | symbol s => if s.symbol.isKeywordMarker then some s.symbol.sansColon else none
  | _ => none

/-- The group of parameters that a tree opens. -/
def group? : Datum → Option Normalize.Group
  | symbol s => Normalize.Group.ofMarker? s.symbol
  | _ => none

/-- A symbol without a hygiene context. -/
def ofSymbol (s : Symbol) : Datum := symbol ⟨s, none⟩

/-- A list with these elements has the wrong number of them. -/
def shapeError (elements : List Datum) (expected : Arity) : Error :=
  .shape (list elements).toText expected elements.length

end Datum

namespace SpecialForm

/-- How many elements a special form has, its head included. -/
def arity : SpecialForm → Arity
  | functionReference => .exactly 2
  | defineVariable | defineFunction | assignVariable | assignFunction => .exactly 3
  | conditional => .exactly 4
  | sequence => .atLeast 1
  | call => .atLeast 2
  | abstraction => .exactly 3

/-- The special forms: their names, and how many elements they have. -/
def table : List (String × SpecialForm × Arity) :=
  [ ("fref", .functionReference, .exactly 2),
    ("def", .defineVariable, .exactly 3),
    ("fdef", .defineFunction, .exactly 3),
    ("set", .assignVariable, .exactly 3),
    ("fset", .assignFunction, .exactly 3),
    ("if", .conditional, .exactly 4),
    ("progn", .sequence, .atLeast 1),
    ("funcall", .call, .atLeast 2),
    ("lambda", .abstraction, .exactly 3) ]

theorem name_mem_table (form : SpecialForm) : (form.name, form, form.arity) ∈ table := by
  cases form <;> simp [table, name, arity]

theorem name_eq_of_mem_table {text : String} {form : SpecialForm} {arity : Arity}
    (h : (text, form, arity) ∈ table) : text = form.name := by
  simp only [table, List.mem_cons, Prod.mk.injEq, List.not_mem_nil, or_false] at h
  -- One case for each row.
  rcases h with h | h | h | h | h | h | h | h | h
  all_goals
    obtain ⟨rfl, rfl, -⟩ := h
    rfl

/-- A symbol is the name of a special form exactly if the table says so. -/
theorem ofSymbol?_eq_some_iff {s : Symbol} {form : SpecialForm} :
    ofSymbol? s = some form ↔ (s.name, form, form.arity) ∈ table := by
  constructor
  · intro h
    have hfound : (form.name == s.name) = true :=
      List.find?_some (p := fun form : SpecialForm => form.name == s.name) h
    exact beq_iff_eq.mp hfound ▸ name_mem_table form
  · intro h
    have hsymbol : s = ⟨form.name⟩ := congrArg Symbol.mk (name_eq_of_mem_table h)
    rw [hsymbol]
    exact ofSymbol?_name form

end SpecialForm

namespace Datum

open Normalize

mutual

/-- The syntax tree that a tree stands for. -/
def normalize : Datum → Except Error Ast
  | .symbol s => .ok (.ref ⟨s.symbol, .values⟩)
  | .string text => .error (.identity "syntax symbol or list" (string text).describe)
  | .number n => .error (.identity "syntax symbol or list" (number n).describe)
  | .list [] => .error (shapeError [] (.atLeast 1))
  | .list (head :: parts) => do
    let operator ← head.asSymbol
    match SpecialForm.ofSymbol? operator with
    | some form => normalizeForm form (head :: parts)
    | none => return .app (.ref ⟨operator, .functions⟩) (← dissectArguments .empty parts)

/-- A special form with these elements, the first of which is its head. -/
def normalizeForm : SpecialForm → List Datum → Except Error Ast
  | .functionReference, [_, name] => do
    return .ref ⟨← name.asSymbol, .functions⟩
  | .defineVariable, [_, name, value] => do
    let name ← name.asSymbol
    return .define ⟨name, .values⟩ (← value.normalize)
  | .defineFunction, [_, name, value] => do
    let name ← name.asSymbol
    return .define ⟨name, .functions⟩ (← value.normalize)
  | .assignVariable, [_, name, value] => do
    let name ← name.asSymbol
    return .assign ⟨name, .values⟩ (← value.normalize)
  | .assignFunction, [_, name, value] => do
    let name ← name.asSymbol
    return .assign ⟨name, .values⟩ (← value.normalize)
  | .conditional, [_, test, consequent, alternative] => do
    let test ← test.normalize
    let consequent ← consequent.normalize
    return .cond test consequent (← alternative.normalize)
  | .sequence, _ :: expressions => do
    return .seq (← normalizeAll expressions)
  | .call, _ :: operator :: args => do
    let operator ← operator.normalize
    return .app operator (← dissectArguments .empty args)
  | .abstraction, [_, parameters, body] => do
    let parameters ← dissectParameterList parameters
    return .lam parameters (← body.normalize)
  | form, elements => .error (shapeError elements form.arity)

/-- Trees in order, up to the first that fails. -/
def normalizeAll : List Datum → Except Error (List Ast)
  | [] => .ok []
  | d :: ds => do return (← d.normalize) :: (← normalizeAll ds)

/-- The arguments before the elements and those that the elements stand for. -/
def dissectArguments (args : Arguments Ast) : List Datum → Except Error (Arguments Ast)
  | [] => .ok args
  | element :: rest =>
    match element.keyword? with
    | some key =>
      match rest with
      | [] => .error (.missingKeywordValue key)
      | value :: rest' => do dissectArguments (args.setKeyword key (← value.normalize)) rest'
    | none => do dissectArguments (args.addPositional (← element.normalize)) rest

/-- The parameters that a parameter list stands for. -/
def dissectParameterList : Datum → Except Error (Parameters Ast)
  | .list elements => do collectParameters (← dissectParameters .required elements)
  | d => .error (.identity "syntax list" d.describe)

/-- The parameters that elements stand for, each with its group; the first belong to `group`. -/
def dissectParameters (group : Group) : List Datum → Except Error (List (Group × Parameter Ast))
  | [] => .ok []
  | element :: rest =>
    match element.group? with
    | some next => dissectParameters next rest
    | none => do
      let parameter ← dissectParameter element
      return (group, parameter) :: (← dissectParameters group rest)

/-- The parameter that an element stands for: a name, or a list of a name and a default value. -/
def dissectParameter : Datum → Except Error (Parameter Ast)
  | .symbol s => .ok ⟨⟨s.symbol, .values⟩, none⟩
  | .list [name, value] => do
    let name ← name.asSymbol
    return ⟨⟨name, .values⟩, some (← value.normalize)⟩
  | .list elements => .error (shapeError elements (.exactly 2))
  | d => .error (.identity "parameter" d.describe)

end

end Datum
end LispFront
