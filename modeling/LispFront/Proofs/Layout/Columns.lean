import LispFront.Layout.Render
import Mathlib.Data.List.DropRight

/-!
# Columns of a line

The renderer adds up the columns of the texts that it writes.  That is the column at the end of the
line that stands there (`Layout.columnAfter`), though the columns of a text are not those of its
characters: an emoji joins with a skin tone after it.  It only has to be seen that no text begins
with a skin tone where the text before it ends in such an emoji (`Text.Apart`).
-/

namespace LispFront

namespace Text

/-- Whether no emoji at the end of one text takes a skin tone at the beginning of the next. -/
def Apart (before after : List Char) : Prop :=
  ∀ c d, before.getLast? = some c → after.head? = some d →
    (takesSkinTone c && isSkinTone d) = false

variable {before after : List Char}

/-- Where texts are apart, their columns add up. -/
theorem displayColumns_append (h : Apart before after) :
    displayColumns (before ++ after) = displayColumns before + displayColumns after := by
  induction before using displayColumns.induct with
  | case1 => rw [List.nil_append, displayColumns, Nat.zero_add]
  | case2 c =>
      cases after with
      | nil => rfl
      | cons d after =>
          have hpair : ¬ (takesSkinTone c && isSkinTone d) = true := by
            rw [h c d rfl rfl]
            exact Bool.false_ne_true
          rw [List.singleton_append, displayColumns, displayColumns, if_neg hpair]
  | case3 c tone rest htone ih =>
      -- The tone is taken, so what follows it is all that can take another.
      have hrest : Apart rest after := by
        intro x d hx hd
        refine h x d ?_ hd
        cases rest with
        | nil => cases hx
        | cons y rest => exact hx
      rw [List.cons_append, List.cons_append, displayColumns, if_pos htone, ih hrest,
        displayColumns, if_pos htone, Nat.add_assoc]
  | case4 c tone rest htone ih =>
      have hrest : Apart (tone :: rest) after := fun x d hx hd => h x d hx hd
      rw [List.cons_append, List.cons_append, displayColumns, if_neg htone,
        ← List.cons_append, ih hrest, displayColumns, if_neg htone, Nat.add_assoc]

theorem displayColumns_of_ascii {text : List Char}
    (h : text.all (·.toNat < 0x80) = true) : displayColumns text = text.length := by
  induction text using displayColumns.induct with
  | case1 => rfl
  | case2 c =>
      have hc : c.toNat < 0x80 := by simpa using h
      rw [displayColumns, charColumns, if_pos hc]
      rfl
  | case3 c tone rest htone ih =>
      have hascii : tone.toNat < 0x80 := by
        simp only [List.all_cons, Bool.and_eq_true, decide_eq_true_eq] at h
        exact h.2.1
      simp only [isSkinTone, Bool.and_eq_true, decide_eq_true_eq] at htone
      omega
  | case4 c tone rest htone ih =>
      rw [List.all_cons, Bool.and_eq_true, decide_eq_true_eq] at h
      rw [displayColumns, if_neg htone, charColumns, if_pos h.1, ih h.2, List.length_cons (a := c),
        Nat.add_comm]

/-- A text in ASCII is no exception. -/
theorem columns_eq_displayColumns (text : String) : columns text = displayColumns text.toList := by
  unfold columns
  split
  · rename_i hascii
    rw [displayColumns_of_ascii hascii, String.length_toList]
  · rfl

/-- Whether the text does not end in an emoji that takes a skin tone. -/
def Bare (before : List Char) : Prop := ∀ c, before.getLast? = some c → takesSkinTone c = false

theorem bare_concat {c : Char} (hc : takesSkinTone c = false) (before : List Char) :
    Bare (before ++ [c]) := by
  intro d hd
  rw [List.getLast?_concat] at hd
  cases hd
  exact hc

theorem Bare.apart (h : Bare before) (after : List Char) : Apart before after := by
  intro c d hc _
  rw [h c hc, Bool.false_and]

theorem apart_cons {d : Char} (hd : isSkinTone d = false) (before after : List Char) :
    Apart before (d :: after) := by
  intro c d' _ hd'
  obtain rfl := Option.some.inj hd'
  rw [hd, Bool.and_false]

end Text

namespace Layout

open Text

/-- The column after a text: how many columns its last line takes. -/
def columnAfter (before : List Char) : Nat :=
  Text.columns (String.ofList (before.rtakeWhile (· != '\n')))

variable {before written : List Char}

theorem columnAfter_eq (before : List Char) :
    columnAfter before = displayColumns (before.rtakeWhile (· != '\n')) := by
  rw [columnAfter, columns_eq_displayColumns, String.toList_ofList]

/-- What has no line feed goes on in the last line. -/
theorem rtakeWhile_append (hline : '\n' ∉ written) :
    (before ++ written).rtakeWhile (· != '\n') = before.rtakeWhile (· != '\n') ++ written := by
  induction written using List.reverseRecOn with
  | nil => rw [List.append_nil, List.append_nil]
  | append_singleton written c ih =>
      rw [List.mem_append, not_or, List.mem_singleton] at hline
      rw [← List.append_assoc, List.rtakeWhile_concat, if_pos (bne_iff_ne.mpr (Ne.symm hline.2)),
        ih hline.1, List.append_assoc]

theorem getLast?_rtakeWhile {c : Char} (h : (before.rtakeWhile (· != '\n')).getLast? = some c) :
    before.getLast? = some c := by
  induction before using List.reverseRecOn with
  | nil => cases h
  | append_singleton before d _ =>
      rw [List.rtakeWhile_concat] at h
      split at h
      · rw [List.getLast?_concat] at h
        rw [List.getLast?_concat, h]
      · cases h

theorem columnAfter_append (hline : '\n' ∉ written) (hapart : Apart before written) :
    columnAfter (before ++ written) =
      columnAfter before + Text.columns (String.ofList written) := by
  have hlast : Apart (before.rtakeWhile (· != '\n')) written :=
    fun c d hc hd => hapart c d (getLast?_rtakeWhile hc) hd
  rw [columnAfter_eq, columnAfter_eq, columns_eq_displayColumns, String.toList_ofList,
    rtakeWhile_append hline, displayColumns_append hlast]

theorem columnAfter_space (before : List Char) :
    columnAfter (before ++ [' ']) = columnAfter before + 1 :=
  columnAfter_append (by decide) (apart_cons (by decide) before [])

/-- The characters of a line feed with spaces after it. -/
def lineBreak (indent : Nat) : List Char := '\n' :: List.replicate indent ' '

/-- After a line feed there are as many columns as spaces. -/
theorem columnAfter_lineBreak (before : List Char) (indent : Nat) :
    columnAfter (before ++ lineBreak indent) = indent := by
  have hspaces : '\n' ∉ List.replicate indent ' ' := by
    intro hmem
    cases List.eq_of_mem_replicate hmem
  have hascii : (List.replicate indent ' ').all (·.toNat < 0x80) = true := by
    rw [List.all_eq_true]
    intro c hc
    rw [List.eq_of_mem_replicate hc]
    rfl
  have hsplit : before ++ lineBreak indent = (before ++ ['\n']) ++ List.replicate indent ' ' := by
    rw [lineBreak, List.append_assoc, List.singleton_append]
  rw [columnAfter_eq, hsplit, rtakeWhile_append hspaces, List.rtakeWhile_concat]
  exact (displayColumns_of_ascii hascii).trans List.length_replicate

/-- A text without a line feed takes as many columns as the line that it is. -/
theorem columnAfter_of_not_mem (hline : '\n' ∉ written) :
    columnAfter written = Text.columns (String.ofList written) := by
  rw [columnAfter, ← List.nil_append written, rtakeWhile_append hline]
  rfl

theorem bare_lineBreak (before : List Char) (indent : Nat) :
    Bare (before ++ lineBreak indent) := by
  cases indent with
  | zero => exact bare_concat (by decide) before
  | succ indent =>
      rw [lineBreak, List.replicate_succ', ← List.cons_append, ← List.append_assoc]
      exact bare_concat (by decide) _

end Layout
end LispFront
