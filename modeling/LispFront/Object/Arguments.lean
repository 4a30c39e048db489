import LispFront.Object.Value

namespace LispFront

/-!
# The calling convention

A call passes its arguments in one flat list: first the positional arguments, then for every
keyword argument its key and its value.  Two counts of 64 bits say how to read the list.  The length
that they announce has to fit 64 bits as well; where it does not, the program stops.
-/

/-- The length of a flat argument list with these counts. -/
def announcedLength (npos nkey : UInt64) : Except Error Nat :=
  let length := npos.toNat + 2 * nkey.toNat
  if length < UInt64.size then .ok length else .error .overflow

/-- Checks the number of positional arguments against the number that a method takes. -/
def checkCount (formal actual : UInt64) : Except Error Unit :=
  if formal = actual then .ok () else .error (.wrongArgumentCount formal.toNat actual.toNat)

/-- Checks that the counts announce as many arguments as there are. -/
def checkLayout (npos nkey : UInt64) (args : List Value) : Except Error Unit := do
  let expected ← announcedLength npos nkey
  if expected = args.length then .ok () else .error (.wrongArgumentCount expected args.length)

section Counts

variable {npos nkey : UInt64} {args : List Value}

theorem announcedLength_eq_ok (hfits : npos.toNat + 2 * nkey.toNat < UInt64.size) :
    announcedLength npos nkey = .ok (npos.toNat + 2 * nkey.toNat) := if_pos hfits

theorem announcedLength_eq_overflow (hlarge : UInt64.size ≤ npos.toNat + 2 * nkey.toNat) :
    announcedLength npos nkey = .error .overflow := if_neg (Nat.not_lt.mpr hlarge)

/-- The check passes the lists that are exactly as long as the counts announce. -/
theorem checkLayout_eq_ok_iff :
    checkLayout npos nkey args = .ok () ↔
      args.length = npos.toNat + 2 * nkey.toNat ∧ npos.toNat + 2 * nkey.toNat < UInt64.size := by
  unfold checkLayout
  by_cases hfits : npos.toNat + 2 * nkey.toNat < UInt64.size
  · rw [announcedLength_eq_ok hfits]
    show (if npos.toNat + 2 * nkey.toNat = args.length then _ else _) = _ ↔ _
    by_cases hlength : npos.toNat + 2 * nkey.toNat = args.length
    · rw [if_pos hlength]
      exact iff_of_true rfl ⟨hlength.symm, hfits⟩
    · rw [if_neg hlength]
      exact iff_of_false nofun fun h => hlength h.1.symm
  · rw [announcedLength_eq_overflow (Nat.not_lt.mp hfits)]
    exact iff_of_false nofun fun h => hfits h.2

/-- Counts that announce another length fail with both lengths. -/
theorem checkLayout_eq_error (hfits : npos.toNat + 2 * nkey.toNat < UInt64.size)
    (hlength : args.length ≠ npos.toNat + 2 * nkey.toNat) :
    checkLayout npos nkey args =
      .error (.wrongArgumentCount (npos.toNat + 2 * nkey.toNat) args.length) := by
  unfold checkLayout
  rw [announcedLength_eq_ok hfits]
  exact if_neg (Ne.symm hlength)

/-- Counts that are too large for 64 bits together are not compared with any length. -/
theorem checkLayout_eq_overflow (hlarge : UInt64.size ≤ npos.toNat + 2 * nkey.toNat) :
    checkLayout npos nkey args = .error .overflow := by
  unfold checkLayout
  rw [announcedLength_eq_overflow hlarge]
  rfl

/-- A list that passes the check has all its positional arguments. -/
theorem le_length_of_checkLayout (hlayout : checkLayout npos nkey args = .ok ()) :
    npos.toNat ≤ args.length := by
  rw [(checkLayout_eq_ok_iff.mp hlayout).1]
  exact Nat.le_add_right _ _

end Counts

/-- The flat list of positional and keyword arguments. -/
def flattenArguments (positional : List Value) (keywords : List (Symbol × Value)) : List Value :=
  positional ++ keywords.flatMap fun (key, value) => [.symbol key, value]

/-- The elements of a list two by two; one that is left over is dropped. -/
def pairUp {α : Type} : List α → List (α × α)
  | a :: b :: rest => (a, b) :: pairUp rest
  | _ => []

theorem length_pairUp {α : Type} : (xs : List α) → (pairUp xs).length = xs.length / 2
  | [] => by simp [pairUp]
  | [_] => by simp [pairUp]
  | a :: b :: rest => by
    have ih := length_pairUp rest
    simp only [pairUp, List.length_cons, ih]
    omega

/-- The pair at a place holds the two elements at twice the place. -/
theorem getElem?_pairUp {α : Type} {xs : List α} {i : Nat} {a b : α}
    (ha : xs[2 * i]? = some a) (hb : xs[2 * i + 1]? = some b) :
    (pairUp xs)[i]? = some (a, b) := by
  induction i generalizing xs with
  | zero =>
    match xs, ha, hb with
    | x :: y :: rest, ha, hb =>
      obtain rfl : x = a := Option.some.inj ha
      obtain rfl : y = b := Option.some.inj hb
      rfl
  | succ i ih =>
    match xs, ha, hb with
    | x :: y :: rest, ha, hb => exact ih ha hb

/-- The keys and values of the keyword arguments; none if the list is too short for them. -/
def keywordArguments (npos nkey : UInt64) (args : List Value) :
    Except Error (List (Value × Value)) := do
  let stop ← announcedLength npos nkey
  if stop ≤ args.length then .ok (pairUp ((args.take stop).drop npos.toNat)) else .ok []

/-- The keyword arguments of a list that passes the check are what stands behind its positional
arguments, two by two. -/
theorem keywordArguments_eq_pairUp {npos nkey : UInt64} {args : List Value}
    (hlayout : checkLayout npos nkey args = .ok ()) :
    keywordArguments npos nkey args = .ok (pairUp (args.drop npos.toNat)) := by
  obtain ⟨hlength, hfits⟩ := checkLayout_eq_ok_iff.mp hlayout
  unfold keywordArguments
  rw [announcedLength_eq_ok hfits, ← hlength]
  show (if args.length ≤ args.length then _ else _) = _
  rw [if_pos (Nat.le_refl _), List.take_length]

theorem length_flattenArguments (positional : List Value) (keywords : List (Symbol × Value)) :
    (flattenArguments positional keywords).length = positional.length + 2 * keywords.length := by
  induction keywords with
  | nil => simp [flattenArguments]
  | cons k rest ih =>
    simp only [flattenArguments, List.flatMap_cons, List.length_append, List.length_cons] at ih ⊢
    simp only [List.length_nil]
    omega

/-- Pairing up takes the flat form of keyword arguments apart again. -/
theorem pairUp_flattenArguments (keywords : List (Symbol × Value)) :
    pairUp (flattenArguments [] keywords) =
      keywords.map fun (key, value) => (Value.symbol key, value) := by
  induction keywords with
  | nil => rfl
  | cons k rest ih =>
    simp only [flattenArguments, List.nil_append] at ih
    simp [flattenArguments, pairUp, ih]

end LispFront
