import LispFront.Normalize.Parameters
import Mathlib.Data.List.Basic
import Mathlib.Data.List.Induction

/-!
# Groups of parameters

Which group an element of a parameter list belongs to can be read off without dissecting the list:
it is the group that the nearest marker before it opens, and before all markers the required group
(`Normalize.groupAt`).  So the members of a group are described place by place
(`Normalize.members`), however often the group is opened.

Dissecting cuts the elements in another way, with the group that is open as what it remembers
(`Normalize.groupedFrom`).  The two agree (`Normalize.members_eq`), because the group that is open
after some elements is that of their last marker (`Normalize.groupAfter`).  Parameters that come
with their groups are collected into the parameters of a function if no group has more than its
share (`Normalize.exists_collectParameters_eq_ok`).
-/

namespace LispFront

namespace Normalize

/-! ## Markers -/

/-- The markers, each with the group that it opens. -/
def groupMarkers : List (String × Group) :=
  [("&optional:", .optional), ("&key:", .keyword), ("&rest:", .rest), ("&all-keys:", .allKeys)]

theorem ofMarker?_eq_some_iff {s : Symbol} {group : Group} :
    Group.ofMarker? s = some group ↔ (s.name, group) ∈ groupMarkers := by
  unfold Group.ofMarker? groupMarkers
  simp only [List.mem_cons, Prod.mk.injEq, List.not_mem_nil, or_false, beq_iff_eq]
  constructor
  · intro h
    split at h
    · simp_all
    split at h
    · simp_all
    split at h
    · simp_all
    split at h
    · simp_all
    · cases h
  · rintro (⟨hname, rfl⟩ | ⟨hname, rfl⟩ | ⟨hname, rfl⟩ | ⟨hname, rfl⟩)
    all_goals simp [hname]

/-- An element opens a group when it is a symbol with the name of a marker. -/
theorem groupOf?_eq_some_iff {x : Syntax} {group : Group} :
    groupOf? x = some group ↔
      ∃ name context, (name, group) ∈ groupMarkers ∧ x = .symbol ⟨⟨name⟩, context⟩ := by
  cases x with
  | symbol s =>
      obtain ⟨⟨name⟩, context⟩ := s
      rw [groupOf?, ofMarker?_eq_some_iff]
      simp
  | _ => simp [groupOf?]

/-! ## Groups by place -/

variable {α : Type} (group? : α → Option Group)

/-- The group that is open after the elements, when `group` was open before them. -/
def groupAfter (group : Group) (xs : List α) : Group := (xs.filterMap group?).getLast?.getD group

/-- The group of a place: that of the nearest marker before it. -/
def groupAt (xs : List α) (i : Nat) : Group := groupAfter group? .required (xs.take i)

/-- The elements of a group in order: those at its places that are no markers. -/
def members (group : Group) (xs : List α) : List α :=
  (List.range xs.length).filterMap fun i =>
    if groupAt group? xs i = group then xs[i]?.filter fun x => (group? x).isNone else none

/-- The elements that are no markers, each with its group; `group` is open before them. -/
def groupedFrom (group : Group) : List α → List (Group × α)
  | [] => []
  | x :: rest =>
    match group? x with
    | some next => groupedFrom next rest
    | none => (group, x) :: groupedFrom group rest

variable {group?} {group : Group} {xs : List α} {x : α}

theorem groupedFrom_cons_of_marker {next : Group} (h : group? x = some next) (rest : List α) :
    groupedFrom group? group (x :: rest) = groupedFrom group? next rest := by
  rw [groupedFrom, h]

theorem groupedFrom_cons_of_none (h : group? x = none) (rest : List α) :
    groupedFrom group? group (x :: rest) = (group, x) :: groupedFrom group? group rest := by
  rw [groupedFrom, h]

theorem groupAfter_cons_of_marker {next : Group} (h : group? x = some next) (rest : List α) :
    groupAfter group? group (x :: rest) = groupAfter group? next rest := by
  unfold groupAfter
  rw [List.filterMap_cons_some h, List.getLast?_cons]
  rfl

theorem groupAfter_cons_of_none (h : group? x = none) (rest : List α) :
    groupAfter group? group (x :: rest) = groupAfter group? group rest := by
  unfold groupAfter
  rw [List.filterMap_cons_none h]

/-- Later elements are cut by the group that the earlier ones leave open. -/
theorem groupedFrom_append (group : Group) (xs ys : List α) :
    groupedFrom group? group (xs ++ ys) =
      groupedFrom group? group xs ++ groupedFrom group? (groupAfter group? group xs) ys := by
  induction xs generalizing group with
  | nil => rfl
  | cons x xs ih =>
      rw [List.cons_append]
      cases hx : group? x with
      | some next =>
          rw [groupedFrom_cons_of_marker hx, groupedFrom_cons_of_marker hx,
            groupAfter_cons_of_marker hx, ih]
      | none =>
          rw [groupedFrom_cons_of_none hx, groupedFrom_cons_of_none hx,
            groupAfter_cons_of_none hx, ih, List.cons_append]

theorem mem_groupedFrom {e : Group × α} (h : e ∈ groupedFrom group? group xs) :
    e.2 ∈ xs ∧ group? e.2 = none := by
  induction xs generalizing group with
  | nil => cases h
  | cons x xs ih =>
      cases hx : group? x with
      | some next =>
          rw [groupedFrom_cons_of_marker hx] at h
          exact ⟨List.mem_cons_of_mem x (ih h).1, (ih h).2⟩
      | none =>
          rw [groupedFrom_cons_of_none hx] at h
          rcases List.mem_cons.mp h with rfl | hrest
          · exact ⟨List.mem_cons_self, hx⟩
          · exact ⟨List.mem_cons_of_mem x (ih hrest).1, (ih hrest).2⟩

/-- The members of a group are what dissecting puts into it. -/
theorem members_eq (group : Group) (xs : List α) :
    members group? group xs =
      ((groupedFrom group? .required xs).filter fun e => e.1 == group).map Prod.snd := by
  induction xs using List.reverseRecOn with
  | nil => rfl
  | append_singleton xs x ih =>
      -- An element at the end moves no place before it into another group.
      have hbefore : (List.range xs.length).filterMap (fun i =>
            if groupAt group? (xs ++ [x]) i = group then
              (xs ++ [x])[i]?.filter fun x => (group? x).isNone else none) =
          members group? group xs := by
        refine List.filterMap_congr fun i hi => ?_
        have hlt : i < xs.length := List.mem_range.mp hi
        unfold groupAt
        rw [List.take_append_of_le_length (Nat.le_of_lt hlt), List.getElem?_append_left hlt]
      have hlast : (xs ++ [x])[xs.length]? = some x := List.getElem?_concat_length
      have hplace : groupAt group? (xs ++ [x]) xs.length = groupAfter group? .required xs := by
        unfold groupAt
        rw [List.take_left]
      rw [members, List.length_append, List.length_singleton, List.range_succ,
        List.filterMap_append, hbefore, ih, groupedFrom_append, List.filter_append,
        List.map_append]
      congr 1
      cases hx : group? x with
      | some next => simp [groupedFrom, hx]
      | none =>
          by_cases hgroup : groupAfter group? .required xs = group
          · rw [List.filterMap_cons, hplace, if_pos hgroup, hlast]
            simp [groupedFrom, hx, hgroup, Option.filter]
          · rw [List.filterMap_cons, hplace, if_neg hgroup]
            simp [groupedFrom, hx, hgroup]

theorem mem_members (hx : x ∈ members group? group xs) : x ∈ xs ∧ group? x = none := by
  rw [members_eq] at hx
  obtain ⟨e, he, rfl⟩ := List.mem_map.mp hx
  exact mem_groupedFrom (List.mem_of_mem_filter he)

end Normalize

/-! ## Collecting -/

/-- The parameters of a group. -/
def Parameters.ofGroup {α : Type} (ps : Parameters α) : Normalize.Group → List (Parameter α)
  | .required => ps.required
  | .optional => ps.optional
  | .keyword => ps.keyword
  | .rest => ps.rest.toList
  | .allKeys => ps.allKeys.toList

/-- Parameters are determined by their groups. -/
theorem Parameters.eq_of_ofGroup {α : Type} {ps qs : Parameters α}
    (h : ∀ group, ps.ofGroup group = qs.ofGroup group) : ps = qs := by
  have hoption {o o' : Option (Parameter α)} (ho : o.toList = o'.toList) : o = o' := by
    cases o <;> cases o' <;> simp_all
  obtain ⟨required, optional, keyword, rest, allKeys⟩ := ps
  obtain rfl : required = qs.required := h .required
  obtain rfl : optional = qs.optional := h .optional
  obtain rfl : keyword = qs.keyword := h .keyword
  obtain rfl : rest = qs.rest := hoption (h .rest)
  obtain rfl : allKeys = qs.allKeys := hoption (h .allKeys)
  rfl

namespace Normalize

variable {α β : Type} {group? : α → Option Group}

/-- Dissecting takes the elements that are no markers one by one, each in its group. -/
theorem groupParameters_eq (parameter : Syntax → Exec (Parameter Ast)) (group : Group)
    (xs : List Syntax) :
    groupParameters parameter group xs =
      (groupedFrom groupOf? group xs).mapM fun e => do
        let p ← parameter e.2
        return (e.1, p) := by
  induction xs generalizing group with
  | nil => rfl
  | cons x xs ih =>
      rw [groupParameters]
      cases hx : groupOf? x with
      | some next =>
          rw [groupedFrom_cons_of_marker hx]
          exact ih next
      | none =>
          rw [groupedFrom_cons_of_none hx, List.mapM_cons, bind_assoc]
          simp only [ih, pure_bind]

/-- A group of the dissected elements holds what its members stand for. -/
theorem inGroup_groupedFrom (f : α → Parameter β) (group : Group) (xs : List α) :
    inGroup group ((groupedFrom group? .required xs).map fun e => (e.1, f e.2)) =
      (members group? group xs).map f := by
  rw [members_eq, inGroup, List.filter_map, List.map_map, List.map_map]
  rfl

variable {qs : List (Group × Parameter α)} {ps : Parameters α}

private theorem head?_toList {γ : Type} {xs : List γ} (h : ¬ 1 < xs.length) :
    xs.head?.toList = xs := by
  match xs with
  | [] => rfl
  | [x] => rfl
  | x :: y :: rest => exact absurd (show 1 < (x :: y :: rest).length by simp) h

theorem collectParameters_of_multipleRest (hrest : 1 < (inGroup .rest qs).length) :
    collectParameters qs = .error .multipleRest := if_pos hrest

theorem collectParameters_of_multipleAllKeys (hrest : ¬ 1 < (inGroup .rest qs).length)
    (hall : 1 < (inGroup .allKeys qs).length) :
    collectParameters qs = .error .multipleAllKeys := (if_neg hrest).trans (if_pos hall)

/-- With at most one rest and at most one all-keys parameter, every group is as it came. -/
theorem exists_collectParameters_eq_ok (hrest : ¬ 1 < (inGroup .rest qs).length)
    (hall : ¬ 1 < (inGroup .allKeys qs).length) :
    ∃ ps, collectParameters qs = .ok ps ∧ ∀ group, ps.ofGroup group = inGroup group qs := by
  refine ⟨_, (if_neg hrest).trans (if_neg hall), fun group => ?_⟩
  cases group with
  | rest => exact head?_toList hrest
  | allKeys => exact head?_toList hall
  | _ => rfl

/-- Parameters that have the groups as they came are what is collected. -/
theorem collectParameters_eq_ok (h : ∀ group, inGroup group qs = ps.ofGroup group) :
    collectParameters qs = .ok ps := by
  have hrest : ¬ 1 < (inGroup .rest qs).length := by
    rw [h .rest]
    exact Nat.not_lt.mpr Option.length_toList_le
  have hall : ¬ 1 < (inGroup .allKeys qs).length := by
    rw [h .allKeys]
    exact Nat.not_lt.mpr Option.length_toList_le
  obtain ⟨ps', hps', hgroups⟩ := exists_collectParameters_eq_ok hrest hall
  obtain rfl : ps' = ps := Parameters.eq_of_ofGroup fun group => (hgroups group).trans (h group)
  exact hps'

end Normalize
end LispFront
