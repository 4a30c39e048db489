import LispFront.Symbol

namespace LispFront

/-!
# The syntax tree

The fixed vocabulary that every form is normalized into.  A name may stand for a variable and for
a function at the same time, so an identifier is a name with its name space.
-/

/-- The two name spaces: variables name values, and functions have names of their own. -/
inductive Namespace where
  | values
  | functions
deriving DecidableEq, Repr

/-- A name in a name space. -/
structure Identifier where
  symbol : Symbol
  space : Namespace
deriving DecidableEq, Repr

/-- The arguments of a call.  A keyword stands without its colon and occurs once, at the place of
its first appearance. -/
structure Arguments (α : Type) where
  positional : List α
  keywords : List (Symbol × α)
deriving Repr

/-- A parameter, with its default value if it has one. -/
structure Parameter (α : Type) where
  id : Identifier
  default : Option α
deriving Repr

/-- The parameters of a function, by group. -/
structure Parameters (α : Type) where
  required : List (Parameter α)
  optional : List (Parameter α)
  keyword : List (Parameter α)
  rest : Option (Parameter α)
  allKeys : Option (Parameter α)
deriving Repr

/-- The nodes of the syntax tree. -/
inductive Ast where
  | ref (id : Identifier)
  | define (id : Identifier) (value : Ast)
  | assign (id : Identifier) (value : Ast)
  | cond (test consequent alternative : Ast)
  | seq (expressions : List Ast)
  | app (operator : Ast) (arguments : Arguments Ast)
  | lam (parameters : Parameters Ast) (body : Ast)
deriving Repr

namespace Arguments

/-- No arguments. -/
def empty {α : Type} : Arguments α := ⟨[], []⟩

/-- Binds a keyword in a list of keywords: in the place that it has, or else at the end. -/
def bind {α : Type} (key : Symbol) (value : α) : List (Symbol × α) → List (Symbol × α)
  | [] => [(key, value)]
  | (k, v) :: rest => if k = key then (key, value) :: rest else (k, v) :: bind key value rest

/-- The arguments with one more positional argument. -/
def addPositional {α : Type} (args : Arguments α) (value : α) : Arguments α :=
  { args with positional := args.positional ++ [value] }

/-- The arguments with a keyword bound.  A later value replaces an earlier one. -/
def setKeyword {α : Type} (args : Arguments α) (key : Symbol) (value : α) : Arguments α :=
  { args with keywords := bind key value args.keywords }

theorem lookup_bind_self {α : Type} (key : Symbol) (value : α) (keywords : List (Symbol × α)) :
    (bind key value keywords).lookup key = some value := by
  induction keywords with
  | nil => simp [bind]
  | cons k rest ih =>
    rw [bind]
    split
    · simp
    · rename_i hne
      have hne' : (key == k.1) = false := by simpa using Ne.symm hne
      rw [List.lookup_cons, hne']
      exact ih

theorem lookup_bind_of_ne {α : Type} {key other : Symbol} (h : other ≠ key) (value : α)
    (keywords : List (Symbol × α)) :
    (bind key value keywords).lookup other = keywords.lookup other := by
  have hne : (other == key) = false := by simpa using h
  induction keywords with
  | nil => simp [bind, List.lookup_cons, hne]
  | cons k rest ih =>
    obtain ⟨name, bound⟩ := k
    rw [bind]
    split
    · rename_i heq
      subst heq
      simp only [List.lookup_cons, hne]
    · simp only [List.lookup_cons, ih]

/-- Binding keeps the order of the keywords, and puts a new one at the end. -/
theorem keys_bind {α : Type} (key : Symbol) (value : α) (keywords : List (Symbol × α)) :
    (bind key value keywords).map Prod.fst =
      if key ∈ keywords.map Prod.fst then keywords.map Prod.fst
      else keywords.map Prod.fst ++ [key] := by
  induction keywords with
  | nil => simp [bind]
  | cons k rest ih =>
    rw [bind]
    by_cases h : k.1 = key
    · simp [h]
    · have h' : key ≠ k.1 := Ne.symm h
      simp only [h, if_false, List.map_cons, ih, List.mem_cons, h', false_or]
      split <;> simp

end Arguments

namespace Parameters

/-- No parameters. -/
def empty {α : Type} : Parameters α := ⟨[], [], [], none, none⟩

end Parameters

end LispFront
