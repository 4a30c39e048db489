import LispFront.CommandLine.Command
import Mathlib.Data.List.Perm.Basic
import Mathlib.Data.List.TakeWhile

/-!
# Accounting for arguments

The arguments of the command fall into units: a flag, an option with its value, a file.  `Choice` is
one unit of each kind at most.  When arguments are accepted they are the words of a choice, each of
them once (`exists_choice_of_parseOptions`); and the units of a choice are accepted in every order,
with one and the same meaning (`Choice.Means.parseOptions_eq`).

Every option takes its unit out of the arguments.  There is a lemma for what a list of arguments was
if an option has been taken, and one for taking an option out of units, which leaves the others.
-/

namespace LispFront
namespace CommandLine

/-! ## Units -/

/-- The names that are not taken for a file. -/
def optionNames : List String := ["-h", "--help", "--print-syntax", "--width", "--color"]

/-- The unit of a flag, if it is given. -/
def flagUnits (flag : String) (given : Bool) : List (List String) :=
  if given then [[flag]] else []

/-- The unit of an option, if a value is given. -/
def optionUnits (option : String) (value : Option String) : List (List String) :=
  value.toList.map fun text => [option, text]

/-- The unit of a file, if one is given. -/
def fileUnits (file : Option String) : List (List String) := file.toList.map fun name => [name]

/-- At most one unit of each kind. -/
structure Choice where
  printSyntax : Bool
  width : Option String
  color : Option String
  file : Option String

/-- The units of a choice. -/
def Choice.units (c : Choice) : List (List String) :=
  flagUnits "--print-syntax" c.printSyntax ++
    (optionUnits "--width" c.width ++ (optionUnits "--color" c.color ++ fileUnits c.file))

/-- The text of an option, if one is given, is read as this value. -/
abbrev Reads {α : Type} (read : String → Except String α) : Option String → Option α → Prop :=
  Option.Rel fun text a => read text = .ok a

/-- What a choice asks for, with the width of the environment. -/
structure Choice.Means (environment : Nat) (c : Choice) (options : Options) : Prop where
  printSyntax : options.printSyntax = c.printSyntax
  width : ∀ text ∈ c.width, readWidth text = .ok options.width
  noWidth : c.width = none → options.width = environment
  color : ∀ text ∈ c.color, text.toLower = options.color.name
  noColor : c.color = none → options.color = .auto
  file : options.file = c.file

/-- The values can be read, and the file does not have the name of an option. -/
structure Choice.Valid (c : Choice) : Prop where
  width : ∀ text ∈ c.width, ∃ width, readWidth text = .ok width
  color : ∀ text ∈ c.color, ∃ mode : ColorMode, text.toLower = mode.name
  file : ∀ name ∈ c.file, name ∉ optionNames

theorem readColorMode_eq_ok_iff {text : String} {mode : ColorMode} :
    readColorMode text = .ok mode ↔ text.toLower = mode.name := by
  unfold readColorMode
  cases mode with
  | always => grind [ColorMode.name]
  | never => grind [ColorMode.name]
  | auto => grind [ColorMode.name]

/-! ## Where an option stands -/

variable {α : Type} {option : String} {read : String → Except String α}
  {arguments before after rest : List String}

theorem takeOption_of_not_mem (h : option ∉ arguments) :
    takeOption option read arguments = .ok (none, arguments) := by
  have hnone : arguments.dropWhile (· != option) = [] := by
    apply List.dropWhile_eq_nil_iff.mpr
    intro word hword
    simpa using fun heq : word = option => h (heq ▸ hword)
  unfold takeOption
  rw [hnone]

theorem dropWhile_append_cons (h : option ∉ before) (after : List String) :
    (before ++ option :: after).dropWhile (· != option) = option :: after ∧
      (before ++ option :: after).takeWhile (· != option) = before := by
  have hpass : ∀ word ∈ before, (word != option) = true := by
    intro word hword
    simpa using fun heq : word = option => h (heq ▸ hword)
  rw [List.dropWhile_append_of_pos hpass, List.takeWhile_append_of_pos hpass]
  simp

/-- The first word of the name is the option, and the word after it is its value. -/
theorem takeOption_append (h : option ∉ before) (value : String) (after : List String) :
    takeOption option read (before ++ option :: value :: after) =
      match read value with
      | .ok a => .ok (some a, before ++ after)
      | .error cause => .error (.badValue value cause) := by
  obtain ⟨hdrop, htake⟩ := dropWhile_append_cons h (value :: after)
  cases hread : read value with
  | ok a => simp only [takeOption, hdrop, htake, hread]
  | error cause => simp only [takeOption, hdrop, hread]

theorem takeOption_append_last (h : option ∉ before) :
    takeOption option read (before ++ [option]) = .error (.missingValue option) := by
  unfold takeOption
  rw [(dropWhile_append_cons h []).1]

/-! ## What has been taken -/

theorem perm_of_takeFlag (flag : String) (arguments : List String) :
    arguments.Perm
      ((flagUnits flag (takeFlag flag arguments).1).flatten ++ (takeFlag flag arguments).2) := by
  by_cases hflag : flag ∈ arguments
  · simpa [takeFlag, flagUnits, hflag] using List.perm_cons_erase hflag
  · simp [takeFlag, flagUnits, hflag, List.erase_of_not_mem]

/-- The arguments were the unit of the option, if there was one, and those that are left. -/
theorem exists_of_takeOption {result : Option α}
    (h : takeOption option read arguments = .ok (result, rest)) :
    ∃ value, Reads read value result ∧
      arguments.Perm ((optionUnits option value).flatten ++ rest) := by
  by_cases hoption : option ∈ arguments
  · obtain ⟨before, after, rfl, hbefore⟩ := List.eq_append_cons_of_mem hoption
    cases after with
    | nil =>
        rw [takeOption_append_last hbefore] at h
        cases h
    | cons value after =>
        rw [takeOption_append hbefore] at h
        cases hread : read value with
        | error cause =>
            rw [hread] at h
            cases h
        | ok a =>
            rw [hread] at h
            cases h
            refine ⟨some value, .some hread, ?_⟩
            simpa [optionUnits] using List.perm_middle.trans (List.perm_middle.cons option)
  · rw [takeOption_of_not_mem hoption] at h
    cases h
    exact ⟨none, .none, by simp [optionUnits]⟩

variable {environment : Nat} {options : Options}

/-- The options are taken one after the other, and what is left is the file. -/
theorem parseOptions_of_take {printSyntax : Bool} {width : Option Nat} {color : Option ColorMode}
    {afterFlag afterWidth : List String} {file : Option String}
    (hflag : takeFlag "--print-syntax" arguments = (printSyntax, afterFlag))
    (hwidth : takeOption "--width" readWidth afterFlag = .ok (width, afterWidth))
    (hcolor : takeOption "--color" readColorMode afterWidth = .ok (color, file.toList)) :
    parseOptions environment arguments =
      .ok ⟨printSyntax, width.getD environment, color.getD .auto, file⟩ := by
  simp only [parseOptions, hflag, hwidth, hcolor, bind, Except.bind]
  cases file with
  | none => rfl
  | some name => rfl

theorem exists_of_parseOptions (h : parseOptions environment arguments = .ok options) :
    ∃ width color afterWidth file, takeOption "--width" readWidth
        (takeFlag "--print-syntax" arguments).2 = .ok (width, afterWidth) ∧
      takeOption "--color" readColorMode afterWidth = .ok (color, file.toList) ∧
      options = ⟨(takeFlag "--print-syntax" arguments).1, width.getD environment,
        color.getD .auto, file⟩ := by
  simp only [parseOptions, bind, Except.bind] at h
  cases hwidth : takeOption "--width" readWidth (takeFlag "--print-syntax" arguments).2 with
  | error e => simp [hwidth] at h
  | ok taken =>
      obtain ⟨width, afterWidth⟩ := taken
      cases hcolor : takeOption "--color" readColorMode afterWidth with
      | error e => simp [hwidth, hcolor] at h
      | ok taken =>
          obtain ⟨color, last⟩ := taken
          simp only [hwidth, hcolor] at h
          match last, hcolor, h with
          | [], hcolor, h =>
              exact ⟨width, color, afterWidth, none, rfl, hcolor, (Except.ok.inj h).symm⟩
          | [name], hcolor, h =>
              exact ⟨width, color, afterWidth, some name, rfl, hcolor, (Except.ok.inj h).symm⟩

/-- What the texts of a choice are read as is what the choice asks for. -/
theorem means_of_reads {c : Choice} {width : Option Nat} {color : Option ColorMode}
    (hwidth : Reads readWidth c.width width) (hcolor : Reads readColorMode c.color color) :
    c.Means environment ⟨c.printSyntax, width.getD environment, color.getD .auto, c.file⟩ := by
  obtain ⟨printSyntax, widthText, colorText, file⟩ := c
  refine ⟨rfl, ?width, ?noWidth, ?color, ?noColor, rfl⟩
  case width =>
    rintro text rfl
    cases hwidth with
    | some hread => exact hread
  case noWidth =>
    rintro rfl
    cases hwidth
    rfl
  case color =>
    rintro text rfl
    cases hcolor with
    | some hread => exact readColorMode_eq_ok_iff.mp hread
  case noColor =>
    rintro rfl
    cases hcolor
    rfl

/-- Accepted arguments are the words of a choice, each of them once. -/
theorem exists_choice_of_parseOptions (h : parseOptions environment arguments = .ok options) :
    ∃ c : Choice, c.Means environment options ∧ arguments.Perm c.units.flatten := by
  obtain ⟨width, color, afterWidth, file, htakeWidth, htakeColor, rfl⟩ := exists_of_parseOptions h
  obtain ⟨widthText, hwidth, hleft⟩ := exists_of_takeOption htakeWidth
  obtain ⟨colorText, hcolor, hlast⟩ := exists_of_takeOption htakeColor
  refine ⟨⟨(takeFlag "--print-syntax" arguments).1, widthText, colorText, file⟩,
    means_of_reads hwidth hcolor, ?_⟩
  have hfile : (fileUnits file).flatten = file.toList := by cases file <;> rfl
  simp only [Choice.units, List.flatten_append, hfile]
  exact (perm_of_takeFlag _ _).trans ((hleft.trans (hlast.append_left _)).append_left _)

/-! ## Taking units -/

variable {order units : List (List String)}

/-- A unit stands somewhere among the others; what is in none of them is not before it. -/
theorem exists_append_of_perm_cons {unit : List String} {name : String}
    (h : order.Perm (unit :: units)) (hname : name ∉ units.flatten) :
    ∃ before after, order = before ++ unit :: after ∧ (before ++ after).Perm units ∧
      name ∉ before.flatten := by
  obtain ⟨before, after, rfl⟩ := List.append_of_mem (h.mem_iff.mpr List.mem_cons_self)
  have hothers : (before ++ after).Perm units := (List.perm_middle.symm.trans h).cons_inv
  rw [← hothers.flatten.mem_iff, List.flatten_append, List.mem_append, not_or] at hname
  exact ⟨before, after, rfl, hothers, hname.1⟩

/-- A flag is taken out of its unit, wherever that is, if it stands in no other. -/
theorem exists_takeFlag_flatten {flag : String} {given : Bool}
    (horder : order.Perm (flagUnits flag given ++ units)) (hflag : flag ∉ units.flatten) :
    ∃ order' : List (List String), order'.Perm units ∧
      takeFlag flag order.flatten = (given, order'.flatten) := by
  cases given with
  | false =>
      have hout : flag ∉ order.flatten := fun hmem => hflag (horder.flatten.mem_iff.mp hmem)
      exact ⟨order, horder, by simp [takeFlag, hout, List.erase_of_not_mem]⟩
  | true =>
      obtain ⟨before, after, rfl, hothers, hbefore⟩ := exists_append_of_perm_cons horder hflag
      refine ⟨before ++ after, hothers, ?_⟩
      simp [takeFlag, List.erase_append_right, hbefore]

/-- An option is taken out of its unit, wherever that is, if its name stands in no other. -/
theorem exists_takeOption_flatten {value : Option String} {result : Option α}
    (hvalue : Reads read value result)
    (horder : order.Perm (optionUnits option value ++ units)) (hoption : option ∉ units.flatten) :
    ∃ order' : List (List String), order'.Perm units ∧
      takeOption option read order.flatten = .ok (result, order'.flatten) := by
  cases hvalue with
  | none =>
      have hout : option ∉ order.flatten := fun hmem => hoption (horder.flatten.mem_iff.mp hmem)
      exact ⟨order, horder, takeOption_of_not_mem hout⟩
  | @some text a hread =>
      obtain ⟨before, after, rfl, hothers, hbefore⟩ := exists_append_of_perm_cons horder hoption
      refine ⟨before ++ after, hothers, ?_⟩
      have htake : takeOption option read (before.flatten ++ option :: text :: after.flatten) =
          .ok (some a, before.flatten ++ after.flatten) := by
        rw [takeOption_append hbefore, hread]
      simpa using htake

/-! ## Names among the units -/

/-- A reader that reads no name of an option reads only texts that are none. -/
theorem not_mem_optionNames {text : String} {a : α}
    (hnames : ∀ name ∈ optionNames, (read name).isOk = false) (h : read text = .ok a) :
    text ∉ optionNames := by
  intro hmem
  have hfalse := hnames text hmem
  rw [h] at hfalse
  cases hfalse

theorem not_mem_optionUnits {value : Option String} {name : String}
    (hvalue : ∀ text ∈ value, text ∉ optionNames) (hname : name ∈ optionNames)
    (hother : name ≠ option) : name ∉ (optionUnits option value).flatten := by
  cases value with
  | none => simp [optionUnits]
  | some text =>
      have htext : name ≠ text := fun heq => hvalue text rfl (heq ▸ hname)
      simp [optionUnits, hother, htext]

theorem not_mem_fileUnits {file : Option String} {name : String}
    (hfile : ∀ text ∈ file, text ∉ optionNames) (hname : name ∈ optionNames) :
    name ∉ (fileUnits file).flatten := by
  cases file with
  | none => simp [fileUnits]
  | some text =>
      have htext : name ≠ text := fun heq => hfile text rfl (heq ▸ hname)
      simp [fileUnits, htext]

namespace Choice.Valid

variable {c : Choice} {name : String}

theorem width_not_name (hc : c.Valid) : ∀ text ∈ c.width, text ∉ optionNames := by
  intro text htext
  obtain ⟨width, hwidth⟩ := hc.width text htext
  exact not_mem_optionNames (by decide +kernel) hwidth

theorem color_not_name (hc : c.Valid) : ∀ text ∈ c.color, text ∉ optionNames := by
  intro text htext
  obtain ⟨mode, hmode⟩ := hc.color text htext
  exact not_mem_optionNames (by decide +kernel) (readColorMode_eq_ok_iff.mpr hmode)

theorem not_mem_afterWidth (hc : c.Valid) (hname : name ∈ optionNames)
    (hcolor : name ≠ "--color") :
    name ∉ (optionUnits "--color" c.color ++ fileUnits c.file).flatten := by
  simp [not_mem_optionUnits hc.color_not_name hname hcolor, not_mem_fileUnits hc.file hname,
    -List.mem_flatten]

theorem not_mem_afterFlag (hc : c.Valid) (hname : name ∈ optionNames) (hwidth : name ≠ "--width")
    (hcolor : name ≠ "--color") :
    name ∉ (optionUnits "--width" c.width ++
      (optionUnits "--color" c.color ++ fileUnits c.file)).flatten := by
  rw [List.flatten_append, List.mem_append, not_or]
  exact ⟨not_mem_optionUnits hc.width_not_name hname hwidth, hc.not_mem_afterWidth hname hcolor⟩

theorem not_mem_units (hc : c.Valid) (hname : name ∈ optionNames)
    (hflag : name ≠ "--print-syntax") (hwidth : name ≠ "--width") (hcolor : name ≠ "--color") :
    name ∉ c.units.flatten := by
  have hout : name ∉ (flagUnits "--print-syntax" c.printSyntax).flatten := by
    cases c.printSyntax <;> simp [flagUnits, hflag]
  rw [Choice.units, List.flatten_append, List.mem_append, not_or]
  exact ⟨hout, hc.not_mem_afterFlag hname hwidth hcolor⟩

/-- Help is not asked for. -/
theorem asksForHelp_eq_false (hc : c.Valid) (horder : order.Perm c.units) :
    asksForHelp order.flatten = false := by
  have hshort : "-h" ∉ c.units.flatten :=
    hc.not_mem_units (by decide) (by decide) (by decide) (by decide)
  have hlong : "--help" ∉ c.units.flatten :=
    hc.not_mem_units (by decide) (by decide) (by decide) (by decide)
  rw [← horder.flatten.mem_iff] at hshort hlong
  simp [asksForHelp, hshort, hlong, -List.mem_flatten]

end Choice.Valid

/-! ## Every order -/

theorem exists_reads {value : Option String} (h : ∀ text ∈ value, ∃ a, read text = .ok a) :
    ∃ result, Reads read value result := by
  cases value with
  | none => exact ⟨none, .none⟩
  | some text =>
      obtain ⟨a, ha⟩ := h text rfl
      exact ⟨some a, .some ha⟩

theorem flatten_eq_toList_of_perm {file : Option String} (h : order.Perm (fileUnits file)) :
    order.flatten = file.toList := by
  cases file with
  | none =>
      rw [List.perm_nil.mp h]
      rfl
  | some name =>
      rw [List.perm_singleton.mp h]
      rfl

/-- The units of a choice are accepted in every order, and ask for the same.  Each step takes one
unit out and leaves the others in some order. -/
theorem Choice.Valid.exists_options {c : Choice} (hc : c.Valid) (environment : Nat) :
    ∃ options, c.Means environment options ∧ ∀ order : List (List String), order.Perm c.units →
      parseOptions environment order.flatten = .ok options := by
  obtain ⟨width, hwidth⟩ := exists_reads hc.width
  have hmodes : ∀ text ∈ c.color, ∃ mode, readColorMode text = .ok mode := by
    simpa only [readColorMode_eq_ok_iff] using hc.color
  obtain ⟨color, hcolor⟩ := exists_reads hmodes
  refine ⟨_, means_of_reads hwidth hcolor, fun order horder => ?_⟩
  obtain ⟨withoutFlag, hperm, hflag⟩ := exists_takeFlag_flatten horder
    (hc.not_mem_afterFlag (by decide) (by decide) (by decide))
  obtain ⟨withoutWidth, hperm, htakeWidth⟩ := exists_takeOption_flatten hwidth hperm
    (hc.not_mem_afterWidth (by decide) (by decide))
  obtain ⟨withoutColor, hperm, htakeColor⟩ := exists_takeOption_flatten hcolor hperm
    (not_mem_fileUnits hc.file (by decide))
  rw [flatten_eq_toList_of_perm hperm] at htakeColor
  exact parseOptions_of_take hflag htakeWidth htakeColor

theorem request_eq_ok_iff {environment : String → Option String} :
    request environment arguments = .ok options ↔ asksForHelp arguments = false ∧
      parseOptions (environmentWidth (environment "ELLC_WIDTH")) arguments = .ok options := by
  unfold request
  cases hhelp : asksForHelp arguments with
  | true => simp
  | false =>
      cases parseOptions (environmentWidth (environment "ELLC_WIDTH")) arguments with
      | ok parsed => simp [Except.mapError]
      | error e => simp [Except.mapError]

/-- Every argument is accounted for, and order makes no difference.

* Accepted arguments are, up to their order, the words of a choice of units that asks for just the
  options that they are accepted for.
* The units of a choice whose values can be read, with a file that is not named like an option, are
  accepted in every order, and for the same options. -/
theorem request_accounts_for_arguments (environment : String → Option String) :
    (∀ arguments options, request environment arguments = .ok options →
      ∃ c : Choice, c.Means (environmentWidth (environment "ELLC_WIDTH")) options ∧
        arguments.Perm c.units.flatten) ∧
    ∀ c : Choice, c.Valid → ∃ options,
      c.Means (environmentWidth (environment "ELLC_WIDTH")) options ∧
      ∀ order : List (List String), order.Perm c.units →
        request environment order.flatten = .ok options := by
  constructor
  · intro arguments options hrequest
    exact exists_choice_of_parseOptions (request_eq_ok_iff.mp hrequest).2
  · intro c hc
    obtain ⟨options, hmeans, hparse⟩ := hc.exists_options
      (environmentWidth (environment "ELLC_WIDTH"))
    refine ⟨options, hmeans, fun order horder => ?_⟩
    exact request_eq_ok_iff.mpr ⟨hc.asksForHelp_eq_false horder, hparse order horder⟩

/-- One unit of each kind. -/
def fullChoice : Choice := ⟨true, some "+40", some "NEVER", some "prog.ell"⟩

/-- The units of each kind, with the file in the midst of the options. -/
def mixedOrder : List (List String) :=
  [["--color", "NEVER"], ["prog.ell"], ["--width", "+40"], ["--print-syntax"]]

/-- The file may stand between the options, the width may have a sign, and the colour mode may be in
capitals. -/
theorem request_mixedOrder :
    let options : Options := ⟨true, 40, .never, some "prog.ell"⟩
    fullChoice.Valid ∧ mixedOrder.Perm fullChoice.units ∧
      request (fun _ => none) mixedOrder.flatten = .ok options ∧
      ∃ c : Choice, c.Means defaultWidth options ∧ mixedOrder.flatten.Perm c.units.flatten := by
  intro options
  have hwidth : readWidth "+40" = .ok 40 := rfl
  have hcolor : "NEVER".toLower = ColorMode.never.name := by decide +kernel
  have hvalid : fullChoice.Valid := by
    refine ⟨?_, ?_, ?_⟩
    · rintro text ⟨⟩
      exact ⟨40, hwidth⟩
    · rintro text ⟨⟩
      exact ⟨.never, hcolor⟩
    · rintro name ⟨⟩
      decide
  have horder : mixedOrder.Perm fullChoice.units := by decide
  obtain ⟨haccount, hevery⟩ := request_accounts_for_arguments fun _ => none
  obtain ⟨parsed, hmeans, hrequest⟩ := hevery fullChoice hvalid
  have hparsed : parsed = options := by
    have hnumber := hwidth.symm.trans (hmeans.width "+40" rfl)
    have hmode := hcolor.symm.trans (hmeans.color "NEVER" rfl)
    obtain ⟨printSyntax, number, mode, file⟩ := parsed
    obtain rfl := hmeans.printSyntax
    obtain rfl := hmeans.file
    obtain rfl := Except.ok.inj hnumber
    cases mode with
    | never => rfl
    | _ => exact absurd hmode (by decide)
  have hmixed := hrequest mixedOrder horder
  rw [hparsed] at hmixed
  exact ⟨hvalid, horder, hmixed, haccount _ _ hmixed⟩

end CommandLine
end LispFront
