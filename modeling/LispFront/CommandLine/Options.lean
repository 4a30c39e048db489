import LispFront.CommandLine.Natural
import LispFront.Text.Quoted

namespace LispFront
namespace CommandLine

/-!
# Options

What the arguments of the command ask for.  Every option takes its words out of the list of
arguments, wherever they stand; the first word that is left names the file, and no word may be left
after that.
-/

/-- When output is coloured. -/
inductive ColorMode where
  | always
  | never
  | auto
deriving DecidableEq, Repr

/-- The name of a colour mode. -/
def ColorMode.name : ColorMode → String
  | always => "always"
  | never => "never"
  | auto => "auto"

/-- What the command is asked to do.  Without a file it reads its standard input. -/
structure Options where
  printSyntax : Bool
  width : Nat
  color : ColorMode
  file : Option String
deriving DecidableEq, Repr

/-- Why arguments are refused. -/
inductive OptionError where
  /-- The option is the last argument, and its value is missing. -/
  | missingValue (option : String)
  /-- The value of an option is none that the option takes. -/
  | badValue (value cause : String)
  /-- Arguments are left over. -/
  | unexpected (arguments : List String)
deriving DecidableEq, Repr

/-- The refusal in words. -/
def OptionError.message : OptionError → String
  | missingValue option => "the '" ++ option ++ "' option doesn't have an associated value"
  | badValue value cause => "failed to parse '" ++ value ++ "': " ++ cause
  | unexpected arguments =>
    "unexpected arguments: [" ++ ", ".intercalate (arguments.map Text.quote) ++ "]"

/-- The width when neither an option nor the environment gives one. -/
def defaultWidth : Nat := 80

/-- The width that the environment asks for; a text that is no number asks for nothing. -/
def environmentWidth (setting : Option String) : Nat :=
  match setting.map readNatural with
  | some (.ok width) => width
  | _ => defaultWidth

/-- The width that a text stands for. -/
def readWidth (text : String) : Except String Nat :=
  (readNatural text).mapError NaturalFault.message

/-- The colour mode that a text stands for, in letters of either case. -/
def readColorMode (text : String) : Except String ColorMode :=
  let lower := text.toLower
  if lower == "always" then .ok .always
  else if lower == "never" then .ok .never
  else if lower == "auto" then .ok .auto
  else .error "Invalid color mode"

/-- Takes a flag out of the arguments: whether it is there, and the other arguments. -/
def takeFlag (flag : String) (arguments : List String) : Bool × List String :=
  (arguments.contains flag, arguments.erase flag)

/-- Takes an option with a value out of the arguments: the value, if the option is there, and the
other arguments. -/
def takeOption {α : Type} (option : String) (read : String → Except String α)
    (arguments : List String) : Except OptionError (Option α × List String) :=
  match arguments.dropWhile (· != option) with
  | [] => .ok (none, arguments)
  | [_] => .error (.missingValue option)
  | _ :: value :: rest =>
    match read value with
    | .ok a => .ok (some a, arguments.takeWhile (· != option) ++ rest)
    | .error cause => .error (.badValue value cause)

/-- The options that arguments ask for, with the width of the environment. -/
def parseOptions (environment : Nat) (arguments : List String) : Except OptionError Options := do
  let (printSyntax, arguments) := takeFlag "--print-syntax" arguments
  let (width, arguments) ← takeOption "--width" readWidth arguments
  let (color, arguments) ← takeOption "--color" readColorMode arguments
  let file := arguments.head?
  match arguments.tail with
  | [] => return ⟨printSyntax, width.getD environment, color.getD .auto, file⟩
  | rest => throw (.unexpected rest)

/-- Whether the arguments ask for help. -/
def asksForHelp (arguments : List String) : Bool :=
  arguments.contains "-h" || arguments.contains "--help"

end CommandLine
end LispFront
