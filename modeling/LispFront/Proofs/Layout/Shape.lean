import LispFront.Proofs.Layout.Columns
import LispFront.Proofs.Layout.LaidOut

/-!
# The shape of a layout

What a rendering looks like when it is not followed step by step.  A `Shape` has words, which are
never broken, and forms, all of whose parts are on one line or all on lines of their own, one column
to the right of the parenthesis of the form.  Which forms are broken is marked in the shape.

`Shows` says that a document is rendered as a shape, with marks that depend on the width and on what
follows; it is kept by everything that documents are put together with.  In a flat group nothing is
marked, so that no form inside a form on one line is broken.  The other way round, a group that ends
within the width is flat (`extent_flat`).
-/

namespace LispFront
namespace Layout

open Text

/-! ## Shapes -/

/-- Words and forms in order, every form with the mark that tells whether it is broken. -/
inductive Shape where
  | word (s : String)
  | sequence (parts : List Shape)
  | form (broken : Bool) (parts : List Shape)
deriving Repr

namespace Shape

/-- What stands between two parts of a form whose parts begin at a column. -/
def separator (broken : Bool) (column : Nat) : List Char :=
  if broken then lineBreak column else [' ']

mutual

/-- The text of a shape, after the text before it. -/
def write (before : List Char) : Shape → List Char
  | .word s => before ++ s.toList
  | .sequence parts => writeAll before parts
  | .form broken parts =>
    writeParts (separator broken (columnAfter before + 1)) (before ++ ['(']) parts ++ [')']

/-- The texts of shapes, one right after the other. -/
def writeAll (before : List Char) : List Shape → List Char
  | [] => before
  | s :: rest => writeAll (s.write before) rest

/-- The texts of shapes, with a separator between each two. -/
def writeParts (separator before : List Char) : List Shape → List Char
  | [] => before
  | [s] => s.write before
  | s :: next :: rest => writeParts separator (s.write before ++ separator) (next :: rest)

end

mutual

/-- The shape with no form broken. -/
def unmark : Shape → Shape
  | .word s => .word s
  | .sequence parts => .sequence (unmarkAll parts)
  | .form _ parts => .form false (unmarkAll parts)

/-- The shapes with no form broken. -/
def unmarkAll : List Shape → List Shape
  | [] => []
  | s :: rest => s.unmark :: unmarkAll rest

end

mutual

/-- Whether no form inside an unbroken form is broken. -/
def WellBroken : Shape → Prop
  | .word _ => True
  | .sequence parts => AllWellBroken parts
  | .form broken parts => (broken = false → unmarkAll parts = parts) ∧ AllWellBroken parts

/-- Whether in all shapes no form inside an unbroken form is broken. -/
def AllWellBroken : List Shape → Prop
  | [] => True
  | s :: rest => s.WellBroken ∧ AllWellBroken rest

end

/-- Shapes with a space between each two. -/
def spaced : List Shape → Shape
  | [] => .sequence []
  | [s] => s
  | s :: next :: rest => .sequence [s, .word " ", spaced (next :: rest)]

/-- A shape in parentheses at which no line is broken. -/
def parenthesized (s : Shape) : Shape := .sequence [.word "(", s, .word ")"]

/-- A shape is another one with marks, and in flat mode it has none. -/
structure Marked (mode : Mode) (s t : Shape) : Prop where
  unmark : t.unmark = s
  wellBroken : t.WellBroken
  flat : mode = .flat → t = s

/-- Shapes are other ones with marks, and in flat mode they have none. -/
structure MarkedAll (mode : Mode) (ss ts : List Shape) : Prop where
  unmark : unmarkAll ts = ss
  wellBroken : AllWellBroken ts
  flat : mode = .flat → ts = ss

variable {mode : Mode} {s t : Shape} {ss ts : List Shape}

theorem marked_word (mode : Mode) (s : String) : Marked mode (.word s) (.word s) :=
  ⟨rfl, trivial, fun _ => rfl⟩

theorem markedAll_nil (mode : Mode) : MarkedAll mode [] [] := ⟨rfl, trivial, fun _ => rfl⟩

theorem Marked.cons (h : Marked mode s t) (hrest : MarkedAll mode ss ts) :
    MarkedAll mode (s :: ss) (t :: ts) where
  unmark := by rw [unmarkAll, h.unmark, hrest.unmark]
  wellBroken := ⟨h.wellBroken, hrest.wellBroken⟩
  flat := fun hmode => by rw [h.flat hmode, hrest.flat hmode]

theorem MarkedAll.sequence (h : MarkedAll mode ss ts) :
    Marked mode (.sequence ss) (.sequence ts) where
  unmark := by rw [Shape.unmark, h.unmark]
  wellBroken := h.wellBroken
  flat := fun hmode => by rw [h.flat hmode]

/-- A form is broken if its group is not flat. -/
theorem MarkedAll.form (h : MarkedAll mode ss ts) :
    Marked mode (.form false ss) (.form (mode == .broken) ts) where
  unmark := by rw [Shape.unmark, h.unmark]
  wellBroken := by
    refine ⟨fun hflat => ?_, h.wellBroken⟩
    have hmode : mode = .flat := by cases mode with
      | flat => rfl
      | broken => cases hflat
    rw [h.unmark, h.flat hmode]
  flat := by
    rintro rfl
    rw [h.flat rfl]
    rfl

end Shape

/-! ## Renderings that continue a text -/

/-- After the text before it, a document is rendered up to the text after it, and the renderer
counts the columns of both right. -/
structure Renders (width : Nat) (d : Document) (indent : Nat) (mode : Mode) (rest : List Pending)
    (before after : List Char) : Prop where
  text : after = before ++
    (textOf false (renderFrom width d indent mode rest (columnAfter before)).1).toList
  column : (renderFrom width d indent mode rest (columnAfter before)).2 = columnAfter after

section Renders

variable {width indent : Nat} {mode : Mode} {rest : List Pending} {d e : Document}
  {before middle after : List Char}

theorem renders_empty : Renders width .empty indent mode rest before before where
  text := (List.append_nil before).symm
  column := rfl

theorem renders_text {s : String} (hline : '\n' ∉ s.toList) (hapart : Apart before s.toList) :
    Renders width (.text s) indent mode rest before (before ++ s.toList) where
  text := by rw [renderFrom, toList_textOf_singleton, Piece.plain]
  column := by rw [renderFrom, columnAfter_append hline hapart, String.ofList_toList]

/-- A line in the middle of a document is a space, or a line feed with its indentation. -/
theorem renders_line :
    Renders width .line indent mode (⟨indent, e⟩ :: rest) before
      (before ++ Shape.separator (mode == .broken) indent) := by
  cases mode with
  | flat =>
      refine ⟨?_, (columnAfter_space before).symm⟩
      rw [renderFrom, toList_textOf_singleton]
      rfl
  | broken =>
      refine ⟨?_, (columnAfter_lineBreak before indent).symm⟩
      rw [renderFrom, toList_textOf_singleton, toList_newline]
      rfl

theorem Renders.append (hd : Renders width d indent mode (⟨indent, e⟩ :: rest) before middle)
    (he : Renders width e indent mode rest middle after) :
    Renders width (d ++ e) indent mode rest before after := by
  obtain ⟨htext, hcolumn⟩ := hd
  obtain ⟨htext', hcolumn'⟩ := he
  constructor
  · show after =
      before ++ (textOf false (renderFrom width (.append d e) indent mode rest _).1).toList
    rw [renderFrom, toList_textOf_append, ← List.append_assoc, ← htext, hcolumn, ← htext']
  · show (renderFrom width e indent mode rest
      (renderFrom width d indent mode (⟨indent, e⟩ :: rest) (columnAfter before)).2).2 = _
    rw [hcolumn, hcolumn']

theorem Renders.styled (h : Renders width d indent mode rest before after) (style : Style) :
    Renders width (.styled style d) indent mode rest before after where
  text := by
    rw [renderFrom, toList_textOf_styled]
    exact h.text
  column := by
    rw [renderFrom]
    exact h.column

theorem Renders.nest {columns : Nat}
    (h : Renders width d (indent + columns) mode rest before after) :
    Renders width (.nest columns d) indent mode rest before after := ⟨h.text, h.column⟩

theorem Renders.align (h : Renders width d (columnAfter before) mode rest before after) :
    Renders width (.align d) indent mode rest before after := ⟨h.text, h.column⟩

/-- The mode in which the content of a group is rendered. -/
def groupMode (width : Nat) (body : Document) (mode : Mode) (rest : List Pending)
    (column : Nat) : Mode :=
  if mode = .broken ∧ fits width body rest column then .flat else mode

theorem not_broken_flat {p : Prop} : ¬ (Mode.flat = .broken ∧ p) := by
  rintro ⟨hmode, -⟩
  cases hmode

/-- A group inside a flat group is flat. -/
theorem groupMode_flat (width : Nat) (body : Document) (rest : List Pending) (column : Nat) :
    groupMode width body .flat rest column = .flat := if_neg not_broken_flat

theorem Renders.group
    (h : Renders width d indent (groupMode width d mode rest (columnAfter before)) rest before
      after) : Renders width (.group d) indent mode rest before after := ⟨h.text, h.column⟩

end Renders

/-! ## Documents with a shape -/

open Shape

/-- A document is rendered as a shape, wherever no emoji waits for a skin tone. -/
structure Shows (d : Document) (s : Shape) : Prop where
  /-- On one line the shape has no line feed. -/
  straight : ∀ before, '\n' ∉ before → '\n' ∉ s.write before
  renders : ∀ width indent mode rest before, Bare before →
    ∃ t, Marked mode s t ∧ Renders width d indent mode rest before (t.write before)

variable {d e : Document} {s s' : Shape} {ds : List Document} {ss : List Shape}

theorem shows_word {s : String} (hline : '\n' ∉ s.toList) : Shows (.text s) (.word s) where
  straight := by
    intro before hbefore
    rw [write, List.mem_append, not_or]
    exact ⟨hbefore, hline⟩
  renders := fun _ _ mode _ before hbare =>
    ⟨.word s, marked_word mode s, renders_text hline (hbare.apart s.toList)⟩

theorem Shows.styled (h : Shows d s) (style : Style) : Shows (.styled style d) s where
  straight := h.straight
  renders := by
    intro width indent mode rest before hbare
    obtain ⟨t, ht, hrenders⟩ := h.renders width indent mode rest before hbare
    exact ⟨t, ht, hrenders.styled style⟩

theorem Shows.group (h : Shows d s) : Shows (.group d) s where
  straight := h.straight
  renders := by
    intro width indent mode rest before hbare
    obtain ⟨t, ht, hrenders⟩ := h.renders width indent
      (groupMode width d mode rest (columnAfter before)) rest before hbare
    refine ⟨t, ⟨ht.unmark, ht.wellBroken, fun hflat => ht.flat ?_⟩, hrenders.group⟩
    rw [hflat]
    exact groupMode_flat width d rest _

private theorem mark_facts {s : String} (hs : s ∈ [" ", "(", ")"]) :
    '\n' ∉ s.toList ∧ Text.columns s = 1 ∧
      ∃ c, s.toList = [c] ∧ isSkinTone c = false ∧ takesSkinTone c = false := by
  simp only [List.mem_cons, List.not_mem_nil, or_false] at hs
  rcases hs with rfl | rfl | rfl
  · exact ⟨by decide, by decide +kernel, ' ', by decide +kernel⟩
  · exact ⟨by decide, by decide +kernel, '(', by decide +kernel⟩
  · exact ⟨by decide, by decide +kernel, ')', by decide +kernel⟩

/-- After a space or a parenthesis the line goes on. -/
theorem not_mem_append_mark {s : String} (hs : s ∈ [" ", "(", ")"]) {before : List Char}
    (hbefore : '\n' ∉ before) : '\n' ∉ before ++ s.toList := by
  rw [List.mem_append, not_or]
  exact ⟨hbefore, (mark_facts hs).1⟩

/-- A space or a parenthesis can stand after any text. -/
theorem renders_mark {width indent : Nat} {mode : Mode} {rest : List Pending} {s : String}
    (hs : s ∈ [" ", "(", ")"]) (before : List Char) :
    Renders width (.text s) indent mode rest before (before ++ s.toList) := by
  obtain ⟨hline, -, c, hc, htone, -⟩ := mark_facts hs
  refine renders_text hline ?_
  rw [hc]
  exact apart_cons htone before []

/-- Any text can stand after a space or a parenthesis. -/
theorem bare_mark {s : String} (hs : s ∈ [" ", "(", ")"]) (before : List Char) :
    Bare (before ++ s.toList) := by
  obtain ⟨-, -, c, hc, -, hbase⟩ := mark_facts hs
  rw [hc]
  exact bare_concat hbase before

theorem columnAfter_mark {s : String} (hs : s ∈ [" ", "(", ")"]) (before : List Char) :
    columnAfter (before ++ s.toList) = columnAfter before + 1 := by
  obtain ⟨hline, hone, c, hc, htone, -⟩ := mark_facts hs
  have hapart : Apart before s.toList := by
    rw [hc]
    exact apart_cons htone before []
  rw [columnAfter_append hline hapart, String.ofList_toList, hone]

/-- Two documents with a space between them. -/
theorem Shows.append_space (hd : Shows d s) (he : Shows e s') :
    Shows (d ++ .space ++ e) (.sequence [s, .word " ", s']) where
  straight := by
    intro before hbefore
    exact he.straight _ (not_mem_append_mark (by decide) (hd.straight before hbefore))
  renders := by
    intro width indent mode rest before hbare
    obtain ⟨t, ht, hfirst⟩ := hd.renders width indent mode (⟨indent, .space⟩ :: ⟨indent, e⟩ :: rest)
      before hbare
    have hafter : Bare (t.write before ++ " ".toList) := bare_mark (by decide) _
    obtain ⟨t', ht', hlast⟩ := he.renders width indent mode rest _ hafter
    exact ⟨_, (ht.cons ((marked_word mode " ").cons (ht'.cons (markedAll_nil mode)))).sequence,
      (hfirst.append (renders_mark (by decide) _)).append hlast⟩

theorem Shows.parenthesized (h : Shows d s) : Shows (.parenthesized d) s.parenthesized where
  straight := by
    intro before hbefore
    have hopen : '\n' ∉ before ++ "(".toList := not_mem_append_mark (by decide) hbefore
    exact not_mem_append_mark (s := ")") (by decide) (h.straight _ hopen)
  renders := by
    intro width indent mode rest before hbare
    have hinside : Bare (before ++ "(".toList) := bare_mark (by decide) before
    obtain ⟨t, ht, hbody⟩ := h.renders width indent mode (⟨indent, .text ")"⟩ :: rest) _ hinside
    have hall := (marked_word mode "(").cons (ht.cons ((marked_word mode ")").cons
      (markedAll_nil mode)))
    exact ⟨_, hall.sequence, ((renders_mark (by decide) before).append hbody).append
      (renders_mark (by decide) _)⟩

theorem shows_spaced (h : List.Forall₂ Shows ds ss) : Shows (.separated .space ds) (spaced ss) := by
  induction h with
  | nil =>
      refine ⟨fun before hbefore => hbefore, fun width indent mode rest before _ => ?_⟩
      exact ⟨.sequence [], (markedAll_nil mode).sequence, renders_empty⟩
  | cons hd hrest ih =>
      cases hrest with
      | nil => exact hd
      | cons => exact hd.append_space ih

/-! ## Forms -/

/-- A document in parentheses, its parts on one line or each on a line of its own. -/
def formOf (words : List Document) : Document :=
  .align (.parenthesized (.group (.nest 1 (.separated .line words))))

theorem straight_parts (h : List.Forall₂ Shows ds ss) {before : List Char}
    (hbefore : '\n' ∉ before) : '\n' ∉ writeParts [' '] before ss := by
  induction h generalizing before with
  | nil => exact hbefore
  | @cons d s ds ss hd hrest ih =>
      have hfirst := hd.straight before hbefore
      cases hrest with
      | nil => exact hfirst
      | cons => exact ih (not_mem_append_mark (s := " ") (by decide) hfirst)

/-- The parts of a form are separated alike, as the mode of their group is. -/
theorem renders_parts (h : List.Forall₂ Shows ds ss) (width indent : Nat) (mode : Mode)
    (rest : List Pending) {before : List Char} (hbare : Bare before) :
    ∃ ts, MarkedAll mode ss ts ∧ Renders width (.separated .line ds) indent mode rest before
      (writeParts (separator (mode == .broken) indent) before ts) := by
  induction h generalizing before with
  | nil => exact ⟨[], markedAll_nil mode, renders_empty⟩
  | @cons d s ds ss hd hrest ih =>
      cases hrest with
      | nil =>
          obtain ⟨t, ht, hrenders⟩ := hd.renders width indent mode rest before hbare
          exact ⟨[t], ht.cons (markedAll_nil mode), hrenders⟩
      | @cons e s' ds ss he hrest =>
          -- The parts after the line are pending, so a line feed is indented as they are.
          obtain ⟨t, ht, hfirst⟩ := hd.renders width indent mode
            (⟨indent, .line⟩ :: ⟨indent, .separated .line (e :: ds)⟩ :: rest) before hbare
          have hafter : Bare (t.write before ++ separator (mode == .broken) indent) := by
            cases mode with
            | flat => exact bare_concat (by decide +kernel) _
            | broken => exact bare_lineBreak _ indent
          obtain ⟨ts, hts, hparts⟩ := ih hafter
          refine ⟨t :: ts, ht.cons hts, ?_⟩
          have hboth := (hfirst.append renders_line).append hparts
          cases ts with
          | nil => cases hts.unmark
          | cons => exact hboth

/-- The mode of the parts of a form: flat, if they and the parenthesis after them fit. -/
def partsMode (width : Nat) (words : List Document) (mode : Mode) (rest : List Pending)
    (column : Nat) : Mode :=
  groupMode width (.nest 1 (.separated .line words)) mode (⟨column, .text ")"⟩ :: rest) (column + 1)

/-- A form is rendered with all its parts on one line or each on a line of its own, one column to
the right of its parenthesis. -/
theorem exists_renders_formOf (h : List.Forall₂ Shows ds ss) (width indent : Nat) (mode : Mode)
    (rest : List Pending) (before : List Char) :
    ∃ ts, MarkedAll (partsMode width ds mode rest (columnAfter before)) ss ts ∧
      Renders width (formOf ds) indent mode rest before
        ((Shape.form (partsMode width ds mode rest (columnAfter before) == .broken) ts).write
          before) := by
  have hcolumn : columnAfter (before ++ "(".toList) = columnAfter before + 1 :=
    columnAfter_mark (s := "(") (by decide) before
  have hinside : Bare (before ++ "(".toList) := bare_mark (by decide) before
  obtain ⟨ts, hts, hparts⟩ := renders_parts h width (columnAfter before + 1)
    (partsMode width ds mode rest (columnAfter before)) (⟨columnAfter before, .text ")"⟩ :: rest)
    hinside
  have hgroup : Renders width (.group (.nest 1 (.separated .line ds))) (columnAfter before) mode
      (⟨columnAfter before, .text ")"⟩ :: rest) (before ++ "(".toList)
      (writeParts (separator (partsMode width ds mode rest (columnAfter before) == .broken)
        (columnAfter before + 1)) (before ++ "(".toList) ts) := by
    refine Renders.group ?_
    rw [hcolumn]
    exact hparts.nest
  exact ⟨ts, hts, (((renders_mark (by decide) before).append hgroup).append
    (renders_mark (by decide) _)).align⟩

theorem shows_formOf (h : List.Forall₂ Shows ds ss) : Shows (formOf ds) (.form false ss) where
  straight := by
    intro before hbefore
    have hopen : '\n' ∉ before ++ "(".toList := not_mem_append_mark (by decide) hbefore
    exact not_mem_append_mark (s := ")") (by decide) (straight_parts h hopen)
  renders := by
    intro width indent mode rest before _
    obtain ⟨ts, hts, hrenders⟩ := exists_renders_formOf h width indent mode rest before
    refine ⟨_, ⟨hts.form.unmark, hts.form.wellBroken, fun hflat => hts.form.flat ?_⟩, hrenders⟩
    rw [hflat]
    exact groupMode_flat width _ _ _

/-! ## What fits is flat -/

/-- A document that ends within the width when it is flat extends as far as it is rendered. -/
theorem extent_flat (width : Nat) (d : Document) (indent : Nat) (rest : List Pending)
    (column : Nat) :
    column ≤ (renderFrom width d indent .flat rest column).2 ∧
      ((renderFrom width d indent .flat rest column).2 ≤ width →
        extent width .flat d column = .upTo (renderFrom width d indent .flat rest column).2) := by
  induction d generalizing indent rest column with
  | empty => exact ⟨le_rfl, fun _ => rfl⟩
  | text s => exact ⟨Nat.le_add_right _ _, fun hwidth => if_neg (Nat.not_lt.mpr hwidth)⟩
  | line => exact ⟨Nat.le_succ _, fun hwidth => if_neg (Nat.not_lt.mpr hwidth)⟩
  | append left right ihLeft ihRight =>
      obtain ⟨hfirst, hleft⟩ := ihLeft indent (⟨indent, right⟩ :: rest) column
      obtain ⟨hlast, hright⟩ := ihRight indent rest
        (renderFrom width left indent .flat (⟨indent, right⟩ :: rest) column).2
      refine ⟨hfirst.trans hlast, fun hwidth => ?_⟩
      have hmiddle := hleft (hlast.trans hwidth)
      rw [extent, hmiddle]
      exact hright hwidth
  | nest columns body ih => exact ih (indent + columns) rest column
  | group body ih =>
      have hrender : renderFrom width (.group body) indent .flat rest column =
          renderFrom width body indent .flat rest column := by
        rw [renderFrom, if_neg not_broken_flat]
      rw [hrender]
      exact ih indent rest column
  | align body ih => exact ih column rest column
  | styled style body ih => exact ih indent rest column

/-- If the form on one line is within the width and nothing comes after it, its parts are flat. -/
theorem partsMode_eq_flat (h : List.Forall₂ Shows ds ss) {width : Nat} {before : List Char}
    (hwidth : columnAfter ((Shape.form false ss).write before) ≤ width) (mode : Mode) :
    partsMode width ds mode [] (columnAfter before) = .flat := by
  have hopen : columnAfter (before ++ "(".toList) = columnAfter before + 1 :=
    columnAfter_mark (by decide) before
  have hinside : Bare (before ++ "(".toList) := bare_mark (by decide) before
  obtain ⟨ts, hts, -, hcolumn⟩ := renders_parts h width (columnAfter before + 1) .flat
    [⟨columnAfter before, .text ")"⟩] hinside
  rw [hts.flat rfl, hopen] at hcolumn
  -- The column of the closing parenthesis, as it is counted and as it stands in the text.
  obtain ⟨column, hlast⟩ : ∃ column,
      column = columnAfter (writeParts [' '] (before ++ "(".toList) ss) := ⟨_, rfl⟩
  have hrender : (renderFrom width (.separated .line ds) (columnAfter before + 1) .flat
      [⟨columnAfter before, .text ")"⟩] (columnAfter before + 1)).2 = column :=
    hcolumn.trans hlast.symm
  have hclose : column + 1 ≤ width := by
    rw [hlast, ← columnAfter_mark (s := ")") (by decide)]
    exact hwidth
  have hextent := (extent_flat width (.separated .line ds) (columnAfter before + 1)
    [⟨columnAfter before, .text ")"⟩] (columnAfter before + 1)).2
  rw [hrender] at hextent
  cases mode with
  | flat => exact groupMode_flat width _ _ _
  | broken =>
      refine if_pos ⟨rfl, ?_⟩
      have hfits : pendingFits width [⟨columnAfter before, .text ")"⟩] column = true := by
        have hcolumns : Text.columns ")" = 1 := by decide +kernel
        rw [pendingFits, extent, textExtent, hcolumns, if_neg (Nat.not_lt.mpr hclose)]
        rfl
      rw [fits, extent, hextent (Nat.le_of_succ_le hclose)]
      exact hfits

/-- A form that nothing comes after is rendered with some forms broken, and none if on one line it
is within the width. -/
theorem exists_shape_of_formOf (h : List.Forall₂ Shows ds ss) (width : Nat) :
    ∃ t : Shape, t.unmark = .form false ss ∧ t.WellBroken ∧
      (textOf false (render width (formOf ds))).toList = t.write [] ∧
      (columnAfter ((Shape.form false ss).write []) ≤ width → t = .form false ss) := by
  obtain ⟨ts, hts, hrenders⟩ := exists_renders_formOf h width 0 .broken [] []
  refine ⟨_, hts.form.unmark, hts.form.wellBroken, hrenders.text.symm, fun hwidth => ?_⟩
  exact hts.form.flat (partsMode_eq_flat h hwidth .broken)

end Layout
end LispFront
