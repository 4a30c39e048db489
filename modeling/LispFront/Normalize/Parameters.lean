import LispFront.Ast.Basic
import LispFront.Object.Run

namespace LispFront
namespace Normalize

/-!
# Dissecting parameters

Splits the elements of a parameter list into groups.  A marker opens its group for the elements
after it, up to the next marker; groups may be opened again.  There is at most one rest and one
all-keys parameter, which is checked when all elements have been seen.
-/

/-- The groups of parameters. -/
inductive Group where
  | required
  | optional
  | keyword
  | rest
  | allKeys
deriving DecidableEq, Repr

/-- The group that a marker opens. -/
def Group.ofMarker? (s : Symbol) : Option Group :=
  if s.name == "&optional:" then some .optional
  else if s.name == "&key:" then some .keyword
  else if s.name == "&rest:" then some .rest
  else if s.name == "&all-keys:" then some .allKeys
  else none

/-- The group that an element opens, if it is a marker. -/
def groupOf? : Syntax → Option Group
  | .symbol s => Group.ofMarker? s.symbol
  | _ => none

/-- The parameters of the elements, each with its group; the first elements belong to `group`. -/
def groupParameters (parameter : Syntax → Exec (Parameter Ast)) :
    (group : Group) → List Syntax → Exec (List (Group × Parameter Ast))
  | _, [] => return []
  | group, element :: rest =>
    match groupOf? element with
    | some next => groupParameters parameter next rest
    | none => do
      let p ← parameter element
      return (group, p) :: (← groupParameters parameter group rest)

/-- The parameters of one group, in order. -/
def inGroup {α : Type} (group : Group) (parameters : List (Group × Parameter α)) :
    List (Parameter α) :=
  (parameters.filter fun (g, _) => g == group).map Prod.snd

/-- Parameters by group. -/
def collectParameters {α : Type} (parameters : List (Group × Parameter α)) :
    Except Error (Parameters α) :=
  let rest := inGroup .rest parameters
  let allKeys := inGroup .allKeys parameters
  if 1 < rest.length then .error .multipleRest
  else if 1 < allKeys.length then .error .multipleAllKeys
  else
    .ok {
      required := inGroup .required parameters
      optional := inGroup .optional parameters
      keyword := inGroup .keyword parameters
      rest := rest.head?
      allKeys := allKeys.head? }

/-- The parameters that the elements of a parameter list stand for. -/
def dissectParameters (parameter : Syntax → Exec (Parameter Ast)) (elements : List Syntax) :
    Exec (Parameters Ast) := do
  Exec.ofExcept (collectParameters (← groupParameters parameter .required elements))

end Normalize
end LispFront
