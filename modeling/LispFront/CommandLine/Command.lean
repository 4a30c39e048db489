import LispFront.Ast.Layout
import LispFront.CommandLine.Options
import LispFront.Normalize.Normalizer
import LispFront.Object.Bootstrap
import LispFront.Source.Read

namespace LispFront
namespace CommandLine

/-!
# The command

Reads a program, normalizes its forms one by one, and writes the syntax tree of every form that
normalizes.  The errors of the others are reported with the number of the form, and all forms are
tried.  What a run writes depends on nothing but its invocation.
-/

/-- What a run of the command can see.  The standard input is a text, so its bytes are valid UTF-8.
Of the environment only `ELLC_WIDTH`, `TERM` and `NO_COLOR` are looked at: `RUST_LOG`, by which the
logger would be asked to write to the standard error too, is taken to leave it silent. -/
structure Invocation where
  arguments : List String
  /-- The environment variables. -/
  environment : String → Option String
  standardInput : String
  /-- The content of a file, or why it cannot be read. -/
  contentOf : String → Except String String

/-- What a run of the command leaves. -/
structure Outcome where
  exitCode : UInt32
  output : String
  errors : String
deriving DecidableEq, Repr

/-- What `--help` writes. -/
def usage : String :=
  "Usage: ellc [options] [input file]\n" ++
  "Options:\n" ++
  "  -h, --help: Print this help message\n" ++
  "  --print-syntax: Print the syntax tree before normalizing\n" ++
  "  --width <n>: Pretty-printer width (default: $ELLC_WIDTH or 80)\n" ++
  "  --color <always|never|auto>: Colorize output (default: auto)\n"

/-- Whether output is coloured.  In the mode `auto` it is when the terminal has a name other than
`dumb` and nothing asks for no colour. -/
def usesColor (environment : String → Option String) : ColorMode → Bool
  | .always => true
  | .never => false
  | .auto =>
    match environment "TERM" with
    | some name => name != "dumb" && (environment "NO_COLOR").isNone
    | none => false

/-- The outcome of a run that cannot go on. -/
def abort (message : String) : Outcome := ⟨1, "", "Error: " ++ message ++ "\n"⟩

/-- The methods of the command's object system: there are none but the core ones. -/
def noMethods : String → Method := fun _ _ _ _ _ _ => .never

/-- What is written for the forms of a program: the trees, and the errors with the number of the
form. -/
def reportForms (width : Nat) (color : Bool) :
    (number : Nat) → List (Except Error Ast) → String × String
  | _, [] => ("", "")
  | number, .ok tree :: rest =>
    let (output, errors) := reportForms width color (number + 1) rest
    (tree.emit width color ++ output, errors)
  | number, .error e :: rest =>
    let (output, errors) := reportForms width color (number + 1) rest
    (output, "Error in form " ++ toString number ++ ": " ++ e.message ++ "\n" ++ errors)

/-- Compiles a program: the text of its syntax, if it is to be printed, and the results of all
forms. -/
def compile (printSyntax : Bool) (source : String) :
    Exec (Option String × List (Except Error Ast)) := do
  let sys ← ObjectSystem.boot noMethods
  let root ← sys.read source
  let text ← if printSyntax then some <$> sys.print (.stx (.list root)) else pure none
  let n ← Normalizer.new sys
  return (text, ← n.normalizeEach root)

/-- What a run with these options leaves for a program. -/
def runProgram (options : Options) (color : Bool) (source : String) : Outcome :=
  match (compile options.printSyntax source).runFrom .empty with
  | none => abort "the program has no answer"
  | some (.error e, _) => abort e.message
  | some (.ok (text, results), _) =>
    let shown := match text with
      | some text => ";; " ++ text ++ "\n"
      | none => ""
    let (output, errors) := reportForms options.width color 1 results
    ⟨if results.all (·.isOk) then 0 else 1, shown ++ output, errors⟩

/-- What arguments ask for, or the outcome of a run that reads no program. -/
def request (environment : String → Option String) (arguments : List String) :
    Except Outcome Options :=
  if asksForHelp arguments then .error ⟨0, usage, ""⟩
  else
    (parseOptions (environmentWidth (environment "ELLC_WIDTH")) arguments).mapError fun e =>
      abort e.message

/-- What a run with these options leaves for a program, or for the reason why it cannot be
read. -/
def runSource (environment : String → Option String) (options : Options) :
    Except String String → Outcome
  | .error reason => abort reason
  | .ok source => runProgram options (usesColor environment options.color) source

/-- A run of the command.  Everything that it writes is taken by its reader: no write to the
standard output or to the standard error fails. -/
def run (invocation : Invocation) : Outcome :=
  match request invocation.environment invocation.arguments with
  | .error outcome => outcome
  | .ok options =>
    runSource invocation.environment options <|
      match options.file with
      | some file => invocation.contentOf file
      | none => .ok invocation.standardInput

end CommandLine
end LispFront
