import LispFront.Object.Method

namespace LispFront
namespace Stock

/-!
# A stock of methods

Small methods of general use, by name: they return what they were given, describe their arguments,
pass them on, or collect them in a list.
-/

/-- Returns the environment. -/
def env : Method := fun _ env _ _ _ => return env

/-- A text for every keyword argument: its key, an equals sign and its printed value. -/
def printPairs (r : Registry) : List (Value × Value) → Body (List String)
  | [] => return []
  | (key, value) :: rest => do
    let key ← Body.ofExcept key.asSymbol
    let text ← Body.print r value
    return (key.name ++ "=" ++ text) :: (← printPairs r rest)

/-- Describes the counts and the keyword arguments. -/
def count : Method := fun r _ npos nkey args => do
  let pairs ← printPairs r (← Body.ofExcept (keywordArguments npos nkey args))
  return .string (toString npos.toNat ++ "/" ++ toString nkey.toNat ++ "/" ++
    ",".intercalate pairs)

/-- The argument at the index that the environment holds, or nil if there is none. -/
def arg : Method := fun _ env _ _ args =>
  match env with
  | .number (.fixnum n) =>
    if n.toInt < 0 then return .nil else return (args[n.toInt.toNat]?).getD .nil
  | _ => return .nil

/-- Checks the number of positional arguments against the environment, and returns it. -/
def npos : Method := fun _ env npos _ _ =>
  match env with
  | .number (.fixnum n) => do
    Body.ofExcept (checkCount n.toUInt64 npos)
    return env
  | _ => .never

/-- The printed texts of values, in order. -/
def printAll (r : Registry) : List Value → Body (List String)
  | [] => return []
  | v :: rest => do
    let text ← Body.print r v
    return text :: (← printAll r rest)

/-- The printed texts of all arguments, with commas between them. -/
def print : Method := fun r _ _ _ args => do
  return .string (",".intercalate (← printAll r args))

/-- Sends the generic function of the environment to the same arguments. -/
def resend : Method := fun _ env npos nkey args =>
  match env with
  | .genericRef generic => Body.send generic npos nkey args
  | _ => .never

/-- Calls the environment with the same arguments. -/
def forward : Method := fun _ env npos nkey args => Body.call env npos nkey args

/-- Adds values to a list, one after the other. -/
def pushAll (list : ListRef) : List Value → Body Unit
  | [] => return ()
  | v :: rest => do
    Body.appendTo list (← Body.ofExcept v.asSyntax)
    pushAll list rest

/-- Adds all arguments to the list in the environment, and returns it. -/
def push : Method := fun _ env _ _ args => do
  let list ← Body.ofExcept env.asSyntaxList
  pushAll list args
  return env

/-- The payload of the first argument. -/
def payload : Method := fun _ _ _ _ args =>
  match args with
  | .object _ payload :: _ => return payload
  | v :: _ => .fail (.identity "instance" v.kind)
  | [] => .never

/-- The methods of the stock, by name. -/
def library : String → Method
  | "env" => env
  | "count" => count
  | "arg" => arg
  | "npos" => npos
  | "print" => print
  | "resend" => resend
  | "forward" => forward
  | "push" => push
  | "payload" => payload
  | _ => fun _ _ _ _ _ => .never

end Stock
end LispFront
