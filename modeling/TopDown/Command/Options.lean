import TopDown.Decimal.Numeral
import TopDown.Timeframe

/-!
# Options of a command line

An option has a name, written after two hyphens, perhaps a letter, written after one, and perhaps a
value. The value stands in the same argument, after an equality sign or right behind the letter, or it
is the next argument, which may then not begin with a hyphen. No option may be given twice.

`TopDown.Command.readOptions` reads the options at the start of a list of arguments, up to the first
argument that is none. It halts as soon as it comes to a call for help or to a mistake.
-/

namespace TopDown.Command

/-- What an option expects. -/
inductive Expects where
  /-- No value. -/
  | nothing
  /-- A text. -/
  | text
  /-- A path, which may not be empty. -/
  | path
  /-- The name of a timeframe. -/
  | timeframe
  /-- A number of 64 bits without sign. -/
  | count
  deriving DecidableEq, Repr

/-- An option. -/
structure Opt where
  /-- Its name. -/
  name : String
  /-- Its letter. -/
  letter : Option Char
  /-- What it expects. -/
  expects : Expects
  deriving DecidableEq, Repr

/-- Why arguments make no command. -/
inductive Halt where
  /-- They ask for help. -/
  | help
  /-- They are mistaken. -/
  | mistake
  deriving DecidableEq, Repr

/-- The code with which the program ends. -/
def Halt.exitCode : Halt → Nat
  | .help => 0
  | .mistake => 2

/-- The options that have been given, with their values; the latest comes first. -/
abbrev Given := List (String × String)

/-! ### Values -/

/-- The number of 64 bits that a text spells. A plus may stand before it, a minus may not. -/
def count? (s : String) : Option Nat :=
  match s.toList with
  | '-' :: _ => none
  | s =>
    match Decimal.parseInt? s with
    | some n => if n < UInt64.size then some n.toNat else none
    | none => none

/-- The value is of the kind that is expected. -/
def Expects.admits : Expects → String → Bool
  | .nothing, _ => true
  | .text, _ => true
  | .path, s => !s.isEmpty
  | .timeframe, s => (Timeframe.parse? s).isSome
  | .count, s => (count? s).isSome

/-- The argument can be a value, or the name of a command. A single hyphen can. -/
def isWord (arg : String) : Bool :=
  !arg.startsWith "-" || arg = "-"

/-! ### Reading -/

/-- The option that asks for help. -/
def helpOption : Opt := ⟨"help", some 'h', .nothing⟩

/-- The given options with one more. -/
def give (o : Opt) (value : String) (given : Given) : Except Halt Given :=
  if o = helpOption then .error .help
  else if (given.lookup o.name).isSome || !o.expects.admits value then .error .mistake
  else .ok ((o.name, value) :: given)

/-- An option as it is written: which one it is, and the value in the same argument. -/
abbrev Written := Opt × Option String

/-- The option that an argument with two hyphens writes. -/
def longOption? (options : List Opt) (body : List Char) : Option Written := do
  let name := body.takeWhile (· ≠ '=')
  let o ← options.find? fun o => o.name.toList = name
  match body.dropWhile (· ≠ '=') with
  | [] => some (o, none)
  | _ :: value => some (o, some (String.ofList value))

/-- The option that an argument with one hyphen writes. -/
def shortOption? (options : List Opt) (body : List Char) : Option Written := do
  match body with
  | [] => none
  | letter :: value =>
    let o ← options.find? fun o => o.letter = some letter
    match value with
    | [] => some (o, none)
    | '=' :: value => some (o, some (String.ofList value))
    | value => some (o, some (String.ofList value))

/-- The option that an argument writes. -/
def option? (options : List Opt) (arg : String) : Option Written :=
  match arg.toList with
  | '-' :: '-' :: body => longOption? options body
  | '-' :: body => shortOption? options body
  | _ => none

/-- A letter that asks for help does so even if more letters follow. -/
def asksForHelp (options : List Opt) (arg : String) : Bool :=
  options.contains helpOption && arg.startsWith "-h"

/-- Reads options, up to the first argument that is none. After two lone hyphens nothing may
follow. -/
def readOptions (options : List Opt) (given : Given) :
    List String → Except Halt (Given × List String)
  | [] => .ok (given, [])
  | arg :: rest =>
    if isWord arg then .ok (given, arg :: rest)
    else if arg = "--" then if rest.isEmpty then .ok (given, []) else .error .mistake
    else if asksForHelp options arg then .error .help
    else
      match option? options arg with
      | none => .error .mistake
      | some (o, some value) =>
        if o.expects = .nothing then .error .mistake
        else (give o value given).bind fun given => readOptions options given rest
      | some (o, none) =>
        if o.expects = .nothing then
          (give o "" given).bind fun given => readOptions options given rest
        else
          match rest with
          | [] => .error .mistake
          | value :: rest =>
            if isWord value then
              (give o value given).bind fun given => readOptions options given rest
            else .error .mistake

end TopDown.Command
