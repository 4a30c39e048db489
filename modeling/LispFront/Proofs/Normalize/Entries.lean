import LispFront.Proofs.Ast.Expressible
import LispFront.Proofs.Normalize.Tree
import Mathlib.Data.List.Induction

/-!
# Entries

Dissecting the elements of a call happens in two steps that can be told apart.  First the elements
are cut into entries: an element that is no key is the value of an entry, whose keyword is the key
right before it, if there is one (`Normalize.entriesFrom`).  Then the values of the entries are put
together: a value without a keyword at the end of the positional arguments, a value with a keyword
in the place of an earlier one (`Arguments.ofEntries`).  Both are described from the last element
on, as what comes later never changes how what came before is cut.

Dissecting syntax objects and dissecting trees are both dissecting entries
(`Normalize.dissectEntries`), each in its own monad.
-/

namespace LispFront

/-- One argument of a call: its keyword, if it has one, and its value. -/
structure ArgumentEntry (α : Type) where
  key : Option Symbol
  value : α
deriving DecidableEq, Repr

namespace ArgumentEntry

variable {α β : Type}

/-- The entry with another value. -/
def map (f : α → β) (e : ArgumentEntry α) : ArgumentEntry β := ⟨e.key, f e.value⟩

/-- The entry with the value that a computation gives for its own. -/
def mapM {m : Type → Type} [Monad m] (f : α → m β) (e : ArgumentEntry α) :
    m (ArgumentEntry β) := do
  return ⟨e.key, ← f e.value⟩

/-- The values under one keyword, or those without a keyword, in order. -/
def valuesOf (key : Option Symbol) (entries : List (ArgumentEntry α)) : List α :=
  (entries.filter fun e => e.key = key).map value

theorem valuesOf_append (key : Option Symbol) (before after : List (ArgumentEntry α)) :
    valuesOf key (before ++ after) = valuesOf key before ++ valuesOf key after := by
  unfold valuesOf
  rw [List.filter_append, List.map_append]

theorem valuesOf_singleton (key : Option Symbol) (e : ArgumentEntry α) :
    valuesOf key [e] = if e.key = key then [e.value] else [] := by
  unfold valuesOf
  split
  · rename_i h
    simp [h]
  · rename_i h
    simp [h]

theorem valuesOf_map (key : Option Symbol) (f : α → β) (entries : List (ArgumentEntry α)) :
    valuesOf key (entries.map (map f)) = (valuesOf key entries).map f := by
  unfold valuesOf
  rw [List.filter_map, List.map_map, List.map_map]
  rfl

end ArgumentEntry

/-! ## Arguments from entries -/

namespace Arguments

variable {α : Type}

/-- The arguments with one more entry. -/
def add (args : Arguments α) (e : ArgumentEntry α) : Arguments α :=
  match e.key with
  | none => args.addPositional e.value
  | some key => args.setKeyword key e.value

/-- The arguments that entries make up. -/
def ofEntries (entries : List (ArgumentEntry α)) : Arguments α := entries.foldl add .empty

theorem ofEntries_concat (entries : List (ArgumentEntry α)) (e : ArgumentEntry α) :
    ofEntries (entries ++ [e]) = (ofEntries entries).add e := by
  unfold ofEntries
  rw [List.foldl_append]
  rfl

/-- The positional arguments are the values without a keyword. -/
theorem positional_ofEntries (entries : List (ArgumentEntry α)) :
    (ofEntries entries).positional = ArgumentEntry.valuesOf none entries := by
  induction entries using List.reverseRecOn with
  | nil => rfl
  | append_singleton entries e ih =>
      obtain ⟨key, value⟩ := e
      rw [ofEntries_concat, ArgumentEntry.valuesOf_append, ArgumentEntry.valuesOf_singleton, ← ih]
      cases key with
      | none => rfl
      | some key => simp [add, setKeyword]

/-- One more element is kept if it is new. -/
private theorem eraseDups_concat (xs : List Symbol) (x : Symbol) :
    (xs ++ [x]).eraseDups = if x ∈ xs then xs.eraseDups else xs.eraseDups ++ [x] := by
  rw [List.eraseDups_append, List.removeAll, List.filter_singleton]
  split
  · rename_i hold
    simp [hold]
  · rename_i hnew
    simp [hnew, List.eraseDups_cons]

/-- The keywords stand in the order of their first appearance. -/
theorem keys_ofEntries (entries : List (ArgumentEntry α)) :
    (ofEntries entries).keys = (entries.filterMap ArgumentEntry.key).eraseDups := by
  induction entries using List.reverseRecOn with
  | nil => rfl
  | append_singleton entries e ih =>
      obtain ⟨key, value⟩ := e
      rw [ofEntries_concat, List.filterMap_append]
      cases key with
      | none => simpa [add, addPositional, keys] using ih
      | some key =>
          show ((ofEntries entries).setKeyword key value).keys = _
          rw [keys_setKeyword, ih]
          simp only [List.mem_eraseDups]
          exact (eraseDups_concat _ key).symm

/-- Under a keyword stands the last of its values. -/
theorem lookup_ofEntries (entries : List (ArgumentEntry α)) (key : Symbol) :
    (ofEntries entries).keywords.lookup key =
      (ArgumentEntry.valuesOf (some key) entries).getLast? := by
  induction entries using List.reverseRecOn with
  | nil => rfl
  | append_singleton entries e ih =>
      obtain ⟨other, value⟩ := e
      rw [ofEntries_concat, ArgumentEntry.valuesOf_append, ArgumentEntry.valuesOf_singleton]
      cases other with
      | none => simpa [add, addPositional] using ih
      | some other =>
          show (bind other value (ofEntries entries).keywords).lookup key = _
          by_cases hsame : key = other
          · subst hsame
            rw [lookup_bind_self]
            simp
          · rw [lookup_bind_of_ne hsame, ih]
            simp [Ne.symm hsame]

theorem nodup_keys_ofEntries (entries : List (ArgumentEntry α)) :
    (ofEntries entries).keys.Nodup := by
  induction entries using List.reverseRecOn with
  | nil => exact List.nodup_nil
  | append_singleton entries e ih =>
      obtain ⟨key, value⟩ := e
      rw [ofEntries_concat]
      cases key with
      | none => exact ih
      | some key => exact nodup_keys_setKeyword ih key value

end Arguments

/-! ## The entries of elements -/

namespace Normalize

variable {α : Type} (keyword? : α → Option Symbol)

/-- The key that an element is, when `pending` is the key that still waits for its value.  An
element for which a key waits is no key. -/
def nextKey (pending : Option Symbol) (x : α) : Option Symbol :=
  if pending.isSome then none else keyword? x

/-- The key that waits for its value after the elements. -/
def keyAfter (pending : Option Symbol) (xs : List α) : Option Symbol :=
  xs.foldl (nextKey keyword?) pending

/-- The entries of the elements: every element that is no key is the value of one, under the key
that waits for it. -/
def entriesFrom : Option Symbol → List α → List (ArgumentEntry α)
  | _, [] => []
  | pending, x :: rest =>
    match nextKey keyword? pending x with
    | some key => entriesFrom (some key) rest
    | none => ⟨pending, x⟩ :: entriesFrom none rest

variable {keyword?} {pending : Option Symbol} {x : α}

theorem keyAfter_cons (pending : Option Symbol) (x : α) (xs : List α) :
    keyAfter keyword? pending (x :: xs) = keyAfter keyword? (nextKey keyword? pending x) xs := rfl

theorem keyAfter_concat (pending : Option Symbol) (xs : List α) (x : α) :
    keyAfter keyword? pending (xs ++ [x]) = nextKey keyword? (keyAfter keyword? pending xs) x := by
  unfold keyAfter
  rw [List.foldl_append]
  rfl

theorem entriesFrom_cons_of_key {key : Symbol} (h : nextKey keyword? pending x = some key)
    (rest : List α) :
    entriesFrom keyword? pending (x :: rest) = entriesFrom keyword? (some key) rest := by
  rw [entriesFrom, h]

theorem entriesFrom_cons_of_value (h : nextKey keyword? pending x = none) (rest : List α) :
    entriesFrom keyword? pending (x :: rest) = ⟨pending, x⟩ :: entriesFrom keyword? none rest := by
  rw [entriesFrom, h]

/-- Later elements are cut by what the earlier ones leave waiting. -/
theorem entriesFrom_append (pending : Option Symbol) (xs ys : List α) :
    entriesFrom keyword? pending (xs ++ ys) =
      entriesFrom keyword? pending xs ++
        entriesFrom keyword? (keyAfter keyword? pending xs) ys := by
  induction xs generalizing pending with
  | nil => rfl
  | cons x xs ih =>
      rw [List.cons_append]
      cases hkey : nextKey keyword? pending x with
      | some key =>
          rw [entriesFrom_cons_of_key hkey, entriesFrom_cons_of_key hkey, ih]
          rw [keyAfter_cons, hkey]
      | none =>
          rw [entriesFrom_cons_of_value hkey, entriesFrom_cons_of_value hkey, ih]
          rw [keyAfter_cons, hkey]
          rfl

/-! ## Dissecting by entries -/

/-- What is left when all elements are dissected: a key that still waits has no value. -/
def settle (pending : Option Symbol) (args : Arguments α) : Except Error (Arguments α) :=
  match pending with
  | none => .ok args
  | some key => .error (.missingKeywordValue key)

section Monadic

variable {m : Type → Type} [Monad m]

variable (keyword?) in
/-- Normalizes the values of the entries in order, and puts them together with the arguments before
them.  A key without a value is found out last. -/
def dissectEntries (normalize : α → m Ast)
    (finish : Except Error (Arguments Ast) → m (Arguments Ast)) (args : Arguments Ast)
    (xs : List α) : m (Arguments Ast) := do
  let entries ← (entriesFrom keyword? none xs).mapM (ArgumentEntry.mapM normalize)
  finish (settle (keyAfter keyword? none xs) (entries.foldl .add args))

variable [LawfulMonad m] {normalize : α → m Ast}
  {finish : Except Error (Arguments Ast) → m (Arguments Ast)} {args : Arguments Ast}

theorem dissectEntries_nil :
    dissectEntries keyword? normalize finish args [] = finish (.ok args) := by
  simp [dissectEntries, entriesFrom, keyAfter, settle]

theorem dissectEntries_cons_of_value (h : keyword? x = none) (rest : List α) :
    dissectEntries keyword? normalize finish args (x :: rest) = (do
      let a ← normalize x
      dissectEntries keyword? normalize finish (args.addPositional a) rest) := by
  have hvalue : nextKey keyword? none x = none := h
  unfold dissectEntries
  rw [entriesFrom_cons_of_value hvalue, keyAfter_cons, hvalue, List.mapM_cons]
  simp only [ArgumentEntry.mapM, bind_assoc, pure_bind, List.foldl_cons]
  rfl

theorem dissectEntries_singleton_of_key {key : Symbol} (h : keyword? x = some key) :
    dissectEntries keyword? normalize finish args [x] =
      finish (.error (.missingKeywordValue key)) := by
  have hwaits : nextKey keyword? none x = some key := h
  unfold dissectEntries
  rw [entriesFrom_cons_of_key hwaits, keyAfter_cons, hwaits]
  simp [entriesFrom, keyAfter, settle]

theorem dissectEntries_cons_of_key {key : Symbol} (h : keyword? x = some key) (value : α)
    (rest : List α) :
    dissectEntries keyword? normalize finish args (x :: value :: rest) = (do
      let a ← normalize value
      dissectEntries keyword? normalize finish (args.setKeyword key a) rest) := by
  have hwaits : nextKey keyword? none x = some key := h
  have hvalue : nextKey keyword? (some key) value = none := rfl
  unfold dissectEntries
  rw [entriesFrom_cons_of_key hwaits, keyAfter_cons, hwaits, entriesFrom_cons_of_value hvalue,
    keyAfter_cons, hvalue, List.mapM_cons]
  simp only [ArgumentEntry.mapM, bind_assoc, pure_bind, List.foldl_cons]
  rfl

end Monadic

/-- Dissecting syntax objects is dissecting their entries. -/
theorem dissectFrom_eq (normalize : Syntax → Exec Ast) :
    (xs : List Syntax) → (args : Arguments Ast) →
      dissectFrom normalize args xs = dissectEntries keywordOf? normalize Exec.ofExcept args xs
  | [], args => by
      rw [dissectFrom, dissectEntries_nil]
      rfl
  | x :: rest, args => by
      rw [dissectFrom]
      cases hkey : keywordOf? x with
      | none =>
          rw [dissectEntries_cons_of_value hkey]
          exact bind_congr fun a => dissectFrom_eq normalize rest _
      | some key =>
          cases rest with
          | nil => rw [dissectEntries_singleton_of_key hkey, Exec.ofExcept]
          | cons value rest =>
              rw [dissectEntries_cons_of_key hkey]
              exact bind_congr fun a => dissectFrom_eq normalize rest _

/-- Dissecting trees is dissecting their entries. -/
theorem dissectArguments_eq :
    (ds : List Datum) → (args : Arguments Ast) →
      Datum.dissectArguments args ds = dissectEntries Datum.keyword? Datum.normalize id args ds
  | [], args => by
      rw [Datum.dissectArguments, dissectEntries_nil]
      rfl
  | d :: rest, args => by
      rw [Datum.dissectArguments]
      cases hkey : d.keyword? with
      | none =>
          rw [dissectEntries_cons_of_value hkey]
          exact bind_congr fun a => dissectArguments_eq rest _
      | some key =>
          cases rest with
          | nil =>
              rw [dissectEntries_singleton_of_key hkey]
              rfl
          | cons value rest =>
              rw [dissectEntries_cons_of_key hkey]
              exact bind_congr fun a => dissectArguments_eq rest _

end Normalize
end LispFront
