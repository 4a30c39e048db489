import LispFront.Proofs.Normalize.Tree

/-!
# How normalization fails

Normalization has five kinds of errors (`Error.OfNormalization`): a list of the wrong length,
something of the wrong kind, a keyword without a value, and too many rest or all-keys parameters.
There is one lemma for each function that takes a tree apart; that a computation fails with nothing
else is put together from its steps (`FailsWith.bind`).
-/

namespace LispFront

/-! ## Errors of one step after the other -/

/-- Whether every error of a result has a property. -/
def FailsWith (P : Error → Prop) {α : Type} (result : Except Error α) : Prop :=
  ∀ e, result = .error e → P e

section FailsWith

variable {P : Error → Prop} {α β : Type}

theorem failsWith_ok (a : α) : FailsWith P (.ok a) := nofun

theorem failsWith_error {e : Error} (he : P e) : FailsWith P (.error e : Except Error α) := by
  intro e' h
  cases h
  exact he

theorem FailsWith.bind {x : Except Error α} {f : α → Except Error β} (hx : FailsWith P x)
    (hf : ∀ a, FailsWith P (f a)) : FailsWith P (x >>= f) := by
  cases x with
  | error e => exact failsWith_error (hx e rfl)
  | ok a => exact hf a

end FailsWith

/-! ## Errors of normalization -/

/-- The errors of normalization: a list has the wrong length, something is of the wrong kind, or
arguments or parameters cannot be told apart. -/
def Error.OfNormalization : Error → Prop
  | shape .. | identity .. | missingKeywordValue _ | multipleRest | multipleAllKeys => True
  | _ => False

namespace Datum

open Normalize

theorem asSymbol_failsWith (d : Datum) : FailsWith Error.OfNormalization d.asSymbol := by
  cases d with
  | symbol s => exact failsWith_ok _
  | _ => exact failsWith_error trivial

theorem collectParameters_failsWith (parameters : List (Group × Parameter Ast)) :
    FailsWith Error.OfNormalization (collectParameters parameters) := by
  simp only [collectParameters]
  split
  · exact failsWith_error trivial
  · split
    · exact failsWith_error trivial
    · exact failsWith_ok _

-- The recursion of normalization: the parts of a tree fail in no other way than the tree.
mutual

theorem normalize_failsWith : (d : Datum) → FailsWith Error.OfNormalization d.normalize
  | .symbol _ => failsWith_ok _
  | .string _ | .number _ | .list [] => failsWith_error trivial
  | .list (head :: parts) => by
    rw [normalize]
    refine (asSymbol_failsWith head).bind fun operator => ?_
    split
    · exact normalizeForm_failsWith _ (head :: parts)
    · exact (dissectArguments_failsWith .empty parts).bind fun _ => failsWith_ok _

theorem normalizeForm_failsWith (form : SpecialForm) (elements : List Datum) :
    FailsWith Error.OfNormalization (normalizeForm form elements) := by
  unfold normalizeForm
  split
  case h_1 head name => exact (asSymbol_failsWith name).bind fun _ => failsWith_ok _
  case h_6 head test consequent alternative =>
    exact (normalize_failsWith test).bind fun _ => (normalize_failsWith consequent).bind fun _ =>
      (normalize_failsWith alternative).bind fun _ => failsWith_ok _
  case h_7 head expressions =>
    exact (normalizeAll_failsWith expressions).bind fun _ => failsWith_ok _
  case h_8 head operator args =>
    exact (normalize_failsWith operator).bind fun _ =>
      (dissectArguments_failsWith .empty args).bind fun _ => failsWith_ok _
  case h_9 head parameters body =>
    exact (dissectParameterList_failsWith parameters).bind fun _ =>
      (normalize_failsWith body).bind fun _ => failsWith_ok _
  case h_10 => exact failsWith_error trivial
  -- The four forms that give a name a value.
  all_goals
    rename_i head name value
    exact (asSymbol_failsWith name).bind fun _ =>
      (normalize_failsWith value).bind fun _ => failsWith_ok _

theorem normalizeAll_failsWith :
    (ds : List Datum) → FailsWith Error.OfNormalization (normalizeAll ds)
  | [] => failsWith_ok _
  | d :: ds => (normalize_failsWith d).bind fun _ => (normalizeAll_failsWith ds).bind fun _ =>
    failsWith_ok _

theorem dissectArguments_failsWith (args : Arguments Ast) :
    (ds : List Datum) → FailsWith Error.OfNormalization (dissectArguments args ds)
  | [] => failsWith_ok _
  | element :: rest => by
    rw [dissectArguments.eq_def]
    dsimp only
    split
    · cases rest with
      | nil => exact failsWith_error trivial
      | cons value rest' =>
        exact (normalize_failsWith value).bind fun _ => dissectArguments_failsWith _ rest'
    · exact (normalize_failsWith element).bind fun _ => dissectArguments_failsWith _ rest

theorem dissectParameterList_failsWith :
    (d : Datum) → FailsWith Error.OfNormalization d.dissectParameterList
  | .list elements =>
    (dissectParameters_failsWith .required elements).bind collectParameters_failsWith
  | .symbol _ | .string _ | .number _ => failsWith_error trivial

theorem dissectParameters_failsWith (group : Group) :
    (ds : List Datum) → FailsWith Error.OfNormalization (dissectParameters group ds)
  | [] => failsWith_ok _
  | element :: rest => by
    rw [dissectParameters]
    split
    · exact dissectParameters_failsWith _ rest
    · exact (dissectParameter_failsWith element).bind fun _ =>
        (dissectParameters_failsWith group rest).bind fun _ => failsWith_ok _

theorem dissectParameter_failsWith :
    (d : Datum) → FailsWith Error.OfNormalization d.dissectParameter
  | .symbol _ => failsWith_ok _
  | .list [name, value] =>
    (asSymbol_failsWith name).bind fun _ => (normalize_failsWith value).bind fun _ => failsWith_ok _
  | .list [] | .list [_] | .list (_ :: _ :: _ :: _) | .string _ | .number _ =>
    failsWith_error trivial

end

/-- Normalization never overflows. -/
theorem normalize_ne_overflow (d : Datum) : d.normalize ≠ .error .overflow :=
  fun h => normalize_failsWith d _ h

end Datum
end LispFront
