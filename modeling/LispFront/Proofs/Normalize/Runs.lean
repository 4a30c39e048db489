import LispFront.Proofs.Normalize.Entries
import LispFront.Proofs.Normalize.Names

/-!
# Runs of markers

Which elements of a call are keys can be read off without dissecting it.  A marker is a key if the
number of markers in the unbroken run right before it is even (`Normalize.keyAt?`); otherwise it is
the value of the key before it.  By this the arguments are described place by place: the plain
elements, the names of the keys, and for every name the element after its last key.

That a key stands before a place and that the run before it is odd are the same
(`Normalize.isSome_keyBefore?_iff`).  So the parity of the run tells what dissecting has to
remember when it comes to a place (`Normalize.keyAfter_eq_keyBefore?`), and the entries are those
of the places (`Normalize.entriesFrom_eq_filterMap`).
-/

namespace LispFront

namespace Normalize

/-! ## Keys by place -/

variable {α : Type} (keyword? : α → Option Symbol)

/-- How many markers stand right before a place, in an unbroken run. -/
def markersBefore (xs : List α) (i : Nat) : Nat :=
  ((xs.take i).reverse.takeWhile fun x => (keyword? x).isSome).length

/-- The keyword of the key at a place: a marker with an even number of markers right before it. -/
def keyAt? (xs : List α) (i : Nat) : Option Symbol :=
  if markersBefore keyword? xs i % 2 = 0 then xs[i]?.bind keyword? else none

/-- The keyword of the key right before a place. -/
def keyBefore? (xs : List α) : Nat → Option Symbol
  | 0 => none
  | i + 1 => keyAt? keyword? xs i

/-- The keyword of the last element, if that is a key. -/
def lastKey? (xs : List α) : Option Symbol := keyBefore? keyword? xs xs.length

/-- The elements that are no keys and do not stand right after one. -/
def plainElements (xs : List α) : List α :=
  (List.range xs.length).filterMap fun i =>
    if keyAt? keyword? xs i = none ∧ keyBefore? keyword? xs i = none then xs[i]? else none

/-- The keywords of the keys, in order. -/
def keywordsOf (xs : List α) : List Symbol :=
  (List.range xs.length).filterMap (keyAt? keyword? xs)

variable {keyword?} {xs : List α} {x : α} {i : Nat}

/-! ## The run before a place -/

theorem markersBefore_zero (xs : List α) : markersBefore keyword? xs 0 = 0 := by
  simp [markersBefore]

theorem markersBefore_succ (hx : xs[i]? = some x) :
    markersBefore keyword? xs (i + 1) =
      if (keyword? x).isSome then markersBefore keyword? xs i + 1 else 0 := by
  unfold markersBefore
  rw [List.take_add_one, hx, Option.toList_some, List.reverse_append, List.reverse_singleton,
    List.singleton_append, List.takeWhile_cons]
  split
  · rw [List.length_cons]
  · rfl

theorem keyAt?_eq (hx : xs[i]? = some x) :
    keyAt? keyword? xs i = if markersBefore keyword? xs i % 2 = 0 then keyword? x else none := by
  rw [keyAt?, hx, Option.bind_some]

theorem lt_length_of_keyAt? {key : Symbol} (h : keyAt? keyword? xs i = some key) :
    i < xs.length := by
  by_contra hplace
  rw [keyAt?, List.getElem?_eq_none (Nat.le_of_not_lt hplace), Option.bind_none, ite_self] at h
  cases h

/-- A key stands right before a place exactly if the run before the place is odd. -/
theorem isSome_keyBefore?_iff (hi : i ≤ xs.length) :
    (keyBefore? keyword? xs i).isSome ↔ markersBefore keyword? xs i % 2 = 1 := by
  cases i with
  | zero => simp [keyBefore?, markersBefore_zero]
  | succ i =>
      have hx : xs[i]? = some xs[i] := List.getElem?_eq_getElem hi
      rw [keyBefore?, keyAt?_eq hx, markersBefore_succ hx]
      cases keyword? xs[i] with
      | none => simp
      | some key =>
          split
          · simp
            omega
          · simp
            omega

/-- What dissecting takes the element at a place for, when it remembers the key right before. -/
theorem keyAt?_eq_nextKey (hx : xs[i]? = some x) :
    keyAt? keyword? xs i = nextKey keyword? (keyBefore? keyword? xs i) x := by
  have hi : i ≤ xs.length := (List.getElem?_eq_some_iff.mp hx).1.le
  have hparity : (keyBefore? keyword? xs i).isSome ↔ markersBefore keyword? xs i % 2 = 1 :=
    isSome_keyBefore?_iff hi
  rw [keyAt?_eq hx, nextKey]
  by_cases hodd : markersBefore keyword? xs i % 2 = 1
  · rw [if_pos (hparity.mpr hodd), if_neg (by omega)]
  · rw [if_neg fun h => hodd (hparity.mp h), if_pos (by omega)]

/-- After a key there is none. -/
theorem keyAt?_eq_none_of_keyBefore? {key : Symbol} (h : keyBefore? keyword? xs i = some key) :
    keyAt? keyword? xs i = none := by
  cases hx : xs[i]? with
  | none => rw [keyAt?, hx, Option.bind_none, ite_self]
  | some x =>
      rw [keyAt?_eq_nextKey hx, h]
      rfl

/-! ## Elements that come later -/

theorem markersBefore_concat (hi : i ≤ xs.length) (x : α) :
    markersBefore keyword? (xs ++ [x]) i = markersBefore keyword? xs i := by
  unfold markersBefore
  rw [List.take_append_of_le_length hi]

theorem keyAt?_concat (hi : i < xs.length) (x : α) :
    keyAt? keyword? (xs ++ [x]) i = keyAt? keyword? xs i := by
  unfold keyAt?
  rw [markersBefore_concat hi.le, List.getElem?_append_left hi]

theorem keyBefore?_concat (hi : i ≤ xs.length) (x : α) :
    keyBefore? keyword? (xs ++ [x]) i = keyBefore? keyword? xs i := by
  cases i with
  | zero => rfl
  | succ i => exact keyAt?_concat hi x

/-! ## Entries by place -/

/-- The key that still waits after all elements is the last element. -/
theorem keyAfter_eq_keyBefore? (xs : List α) :
    keyAfter keyword? none xs = keyBefore? keyword? xs xs.length := by
  induction xs using List.reverseRecOn with
  | nil => rfl
  | append_singleton xs x ih =>
      have hx : (xs ++ [x])[xs.length]? = some x := List.getElem?_concat_length
      rw [keyAfter_concat, ih, List.length_append, List.length_singleton]
      show _ = keyAt? keyword? (xs ++ [x]) xs.length
      rw [keyAt?_eq_nextKey hx, keyBefore?_concat le_rfl]

variable (keyword?) in
/-- The entry of a place: its element under the key right before, unless it is a key itself. -/
def entryAt? (xs : List α) (i : Nat) : Option (ArgumentEntry α) :=
  match keyAt? keyword? xs i with
  | some _ => none
  | none => xs[i]?.map fun x => ⟨keyBefore? keyword? xs i, x⟩

theorem entryAt?_concat (hi : i < xs.length) (x : α) :
    entryAt? keyword? (xs ++ [x]) i = entryAt? keyword? xs i := by
  unfold entryAt?
  rw [keyAt?_concat hi, keyBefore?_concat hi.le, List.getElem?_append_left hi]

/-- The entries that dissecting cuts are those of the places. -/
theorem entriesFrom_eq_filterMap (xs : List α) :
    entriesFrom keyword? none xs =
      (List.range xs.length).filterMap (entryAt? keyword? xs) := by
  induction xs using List.reverseRecOn with
  | nil => rfl
  | append_singleton xs x ih =>
      have hx : (xs ++ [x])[xs.length]? = some x := List.getElem?_concat_length
      have hbefore : (List.range xs.length).filterMap (entryAt? keyword? (xs ++ [x])) =
          (List.range xs.length).filterMap (entryAt? keyword? xs) :=
        List.filterMap_congr fun i hi => entryAt?_concat (List.mem_range.mp hi) x
      have hkey : keyAt? keyword? (xs ++ [x]) xs.length =
          nextKey keyword? (keyBefore? keyword? xs xs.length) x := by
        rw [keyAt?_eq_nextKey hx, keyBefore?_concat le_rfl]
      rw [entriesFrom_append, ih, List.length_append, List.length_singleton, List.range_succ,
        List.filterMap_append, hbefore, keyAfter_eq_keyBefore?]
      congr 1
      cases hnext : nextKey keyword? (keyBefore? keyword? xs xs.length) x with
      | some key =>
          rw [entriesFrom_cons_of_key hnext]
          simp [entriesFrom, entryAt?, hkey, hnext]
      | none =>
          rw [entriesFrom_cons_of_value hnext]
          simp [entriesFrom, entryAt?, hkey, hnext, keyBefore?_concat]

theorem entryAt?_eq_some_iff {e : ArgumentEntry α} :
    entryAt? keyword? xs i = some e ↔
      keyAt? keyword? xs i = none ∧ keyBefore? keyword? xs i = e.key ∧ xs[i]? = some e.value := by
  obtain ⟨key, value⟩ := e
  unfold entryAt?
  cases keyAt? keyword? xs i with
  | some other => simp
  | none =>
      cases xs[i]? with
      | none => simp
      | some x => simp

/-- The values under a keyword stand right after its keys, and the plain elements after none. -/
theorem valuesOf_entriesFrom (key : Option Symbol) (xs : List α) :
    ArgumentEntry.valuesOf key (entriesFrom keyword? none xs) =
      (List.range xs.length).filterMap fun i =>
        if keyAt? keyword? xs i = none ∧ keyBefore? keyword? xs i = key then xs[i]? else none := by
  rw [entriesFrom_eq_filterMap, ArgumentEntry.valuesOf, List.filter_filterMap,
    List.map_filterMap]
  refine List.filterMap_congr fun i _ => ?_
  unfold entryAt?
  cases keyAt? keyword? xs i with
  | some other => simp
  | none =>
      cases xs[i]? with
      | none => simp
      | some x => by_cases hkey : keyBefore? keyword? xs i = key <;> simp [Option.filter, hkey]

/-- The keyword of the entry of a place is that of the key right before. -/
theorem entryAt?_bind_key (hi : i < xs.length) :
    (entryAt? keyword? xs i).bind ArgumentEntry.key = keyBefore? keyword? xs i := by
  have hx : xs[i]? = some xs[i] := List.getElem?_eq_getElem hi
  unfold entryAt?
  rw [hx]
  cases hbefore : keyBefore? keyword? xs i with
  | some key =>
      rw [keyAt?_eq_none_of_keyBefore? hbefore]
      rfl
  | none =>
      cases keyAt? keyword? xs i with
      | some key => rfl
      | none => rfl

theorem filterMap_keyBefore? (xs : List α) (n : Nat) :
    (List.range (n + 1)).filterMap (keyBefore? keyword? xs) =
      (List.range n).filterMap (keyAt? keyword? xs) := by
  rw [List.range_succ_eq_map, List.filterMap_cons_none rfl, List.filterMap_map]
  rfl

/-- If the last element is no key, every key has its entry. -/
theorem filterMap_key_entriesFrom (hlast : keyBefore? keyword? xs xs.length = none) :
    (entriesFrom keyword? none xs).filterMap ArgumentEntry.key = keywordsOf keyword? xs := by
  rw [entriesFrom_eq_filterMap, List.filterMap_filterMap,
    List.filterMap_congr fun i hi => entryAt?_bind_key (List.mem_range.mp hi), keywordsOf]
  cases hlength : xs.length with
  | zero => rfl
  | succ n =>
      rw [hlength] at hlast
      have hnone : keyAt? keyword? xs n = none := hlast
      rw [filterMap_keyBefore?, List.range_succ, List.filterMap_append,
        List.filterMap_cons_none hnone, List.filterMap_nil, List.append_nil]

private theorem exists_range_eq_append {n : Nat} (hi : i < n) :
    ∃ later, List.range n = List.range i ++ i :: later ∧ ∀ j ∈ later, i < j := by
  obtain ⟨k, rfl⟩ := Nat.exists_eq_add_of_lt hi
  refine ⟨(List.range k).map fun j => i + (j + 1), ?_, ?_⟩
  · rw [Nat.add_assoc, List.range_add, List.range_succ_eq_map, List.map_cons, List.map_map]
    rfl
  · intro j hj
    obtain ⟨k', -, rfl⟩ := List.mem_map.mp hj
    omega

/-- The entry of a place that is no key, with those of the places before it. -/
theorem exists_entriesFrom_eq_append (hx : xs[i]? = some x)
    (hkey : keyAt? keyword? xs i = none) :
    ∃ before after, entriesFrom keyword? none xs =
        before ++ ⟨keyBefore? keyword? xs i, x⟩ :: after ∧
      ∀ e ∈ before, ∃ j < i, keyAt? keyword? xs j = none ∧ xs[j]? = some e.value := by
  obtain ⟨hplace, -⟩ := List.getElem?_eq_some_iff.mp hx
  obtain ⟨later, hrange, -⟩ := exists_range_eq_append hplace
  have hentry : entryAt? keyword? xs i = some ⟨keyBefore? keyword? xs i, x⟩ :=
    entryAt?_eq_some_iff.mpr ⟨hkey, rfl, hx⟩
  refine ⟨(List.range i).filterMap (entryAt? keyword? xs),
    later.filterMap (entryAt? keyword? xs), ?_, fun e he => ?_⟩
  · rw [entriesFrom_eq_filterMap, hrange, List.filterMap_append,
      List.filterMap_cons_some hentry]
  · obtain ⟨j, hj, hentry⟩ := List.mem_filterMap.mp he
    obtain ⟨hnone, -, hvalue⟩ := entryAt?_eq_some_iff.mp hentry
    exact ⟨j, List.mem_range.mp hj, hnone, hvalue⟩

/-- The last value under a keyword is the element after its last key. -/
theorem getLast?_valuesOf_entriesFrom {key : Symbol} (hkey : keyAt? keyword? xs i = some key)
    (hlast : ∀ j, i < j → keyAt? keyword? xs j ≠ some key) (hx : xs[i + 1]? = some x) :
    (ArgumentEntry.valuesOf (some key) (entriesFrom keyword? none xs)).getLast? = some x := by
  obtain ⟨hplace, -⟩ := List.getElem?_eq_some_iff.mp hx
  obtain ⟨later, hrange, hlater⟩ := exists_range_eq_append hplace
  have hbefore : keyBefore? keyword? xs (i + 1) = some key := hkey
  rw [valuesOf_entriesFrom, hrange, List.filterMap_append, List.filterMap_cons,
    if_pos ⟨keyAt?_eq_none_of_keyBefore? hbefore, hbefore⟩, hx]
  have hnone : ∀ j ∈ later, (if keyAt? keyword? xs j = none ∧
      keyBefore? keyword? xs j = some key then xs[j]? else none) = none := by
    intro j hj
    refine if_neg fun h => ?_
    obtain ⟨k, rfl⟩ := Nat.exists_eq_add_of_lt (hlater j hj)
    exact hlast (i + 1 + k) (by omega) h.2
  rw [List.filterMap_eq_nil_iff.mpr hnone]
  exact List.getLast?_concat

/-! ## Arguments by place -/

/-- The arguments are what the elements say place by place, each value taken by `f`. -/
structure ByPlace {β : Type} (keyword? : α → Option Symbol) (xs : List α) (f : α → β)
    (args : Arguments β) : Prop where
  positional : args.positional = (plainElements keyword? xs).map f
  keys : args.keys = (keywordsOf keyword? xs).eraseDups
  value : ∀ i key, keyAt? keyword? xs i = some key →
    (∀ j, i < j → keyAt? keyword? xs j ≠ some key) →
      ∃ x, xs[i + 1]? = some x ∧ args.keywords.lookup key = some (f x)

theorem byPlace_ofEntries {β : Type} (hlast : keyBefore? keyword? xs xs.length = none)
    (f : α → β) :
    ByPlace keyword? xs f
      (.ofEntries ((entriesFrom keyword? none xs).map (ArgumentEntry.map f))) where
  positional := by
    rw [Arguments.positional_ofEntries, ArgumentEntry.valuesOf_map, valuesOf_entriesFrom]
    rfl
  keys := by
    rw [Arguments.keys_ofEntries, List.filterMap_map, ← filterMap_key_entriesFrom hlast]
    rfl
  value := by
    intro i key hkey hlater
    -- A key at the last place would be the key before the end.
    have hplace : i + 1 < xs.length := by
      refine lt_of_le_of_ne (lt_length_of_keyAt? hkey) fun hend => ?_
      rw [← hend] at hlast
      exact Option.some_ne_none key (hkey.symm.trans hlast)
    have hx : xs[i + 1]? = some xs[i + 1] := List.getElem?_eq_getElem hplace
    refine ⟨xs[i + 1], hx, ?_⟩
    rw [Arguments.lookup_ofEntries, ArgumentEntry.valuesOf_map, List.getLast?_map,
      getLast?_valuesOf_entriesFrom hkey hlater hx]
    rfl

end Normalize
end LispFront
