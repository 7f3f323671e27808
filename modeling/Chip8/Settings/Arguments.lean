import Chip8.Settings.Basic

/-!
# The command line

Arguments are read from left to right. One that begins with a hyphen is an option, unless it is
the hyphen alone; any other is the value of the option before it, if that still lacks one, and
otherwise the program to run, of which there is one. After the argument `--` there are no more
options.

How arguments are told apart has no part in what a setting means: `Settings.ofGiven` reads whatever
texts were given, and what is proved of it holds of all texts.

* `Token.ofArgument`: what an argument is by itself.
* `UsageFault`: what can be wrong with a command line.
* `Scan.next`: reads one argument; a fault that it shows ends the reading at once.
* `Scan.finish`: checks what is there at the end.
* `Settings.ofArguments`: the settings of a command line.
-/

namespace Chip8

/-- What can be wrong with a command line. -/
inductive UsageFault where
  /-- Help was asked for, so there is nothing to run. -/
  | helpDisplayed
  /-- An argument has no meaning. -/
  | unknownArgument
  /-- An option has no value. -/
  | emptyValue
  /-- There is no program to run. -/
  | missingRequiredArgument
  /-- An option is there twice. -/
  | unexpectedMultipleUsage
  deriving Repr, DecidableEq

/-- The setting of a long option. -/
def Setting.ofLong? (name : String) : Option Setting :=
  if name = "steps-per-frame" then some stepsPerFrame
  else if name = "scale" then some scale
  else if name = "seed" then some seed
  else none

/-- The setting of a short option. -/
def Setting.ofShort? : Char → Option Setting
  | 's' => some stepsPerFrame
  | 'x' => some scale
  | _ => none

/-- What an argument is by itself. -/
inductive Token where
  /-- The end of the options. -/
  | endOfOptions
  /-- An option, with its value if that is part of the argument. -/
  | option (setting : Setting) (value : Option String)
  /-- A question for help. -/
  | help
  /-- An option that does not exist. -/
  | unknown
  /-- No option. -/
  | plain (text : String)
  deriving Repr, DecidableEq

namespace Token

/-- The value attached to an option: equals signs in front of it do not count. -/
def attached (text : List Char) : String := String.ofList (text.dropWhile (· = '='))

/-- A long option: a name, and after an equals sign a value. -/
def ofLong (body : List Char) : Token :=
  let name := String.ofList (body.takeWhile (· ≠ '='))
  let rest := body.dropWhile (· ≠ '=')
  if name = "help" then help
  else
    match Setting.ofLong? name with
    | some setting => option setting (if rest.isEmpty then none else some (attached rest))
    | none => unknown

/-- A short option: one letter, and behind it a value. -/
def ofShort (letter : Char) (rest : List Char) : Token :=
  if letter = 'h' then help
  else
    match Setting.ofShort? letter with
    | some setting => option setting (if rest.isEmpty then none else some (attached rest))
    | none => unknown

/-- What an argument is by itself. -/
def ofArgument (argument : String) : Token :=
  match argument.toList with
  | ['-', '-'] => endOfOptions
  | '-' :: '-' :: body => ofLong (body.dropWhile (· = '-'))
  | '-' :: letter :: rest => ofShort letter rest
  | _ => plain argument

end Token

/-- What was read of a command line. -/
structure Scan where
  program : Option String
  /-- The options in the order they came. -/
  used : List Setting
  /-- The values of options in the order they came. -/
  values : List (Setting × String)
  /-- The option that the next value belongs to. -/
  awaiting : Option Setting
  /-- Whether the options are over. -/
  ended : Bool
  deriving Repr, DecidableEq

namespace Scan

/-- Nothing read yet. -/
def start : Scan := ⟨none, [], [], none, false⟩

/-- The first value of an option. -/
def value? (s : Scan) (setting : Setting) : Option String :=
  (s.values.find? fun (other, _) => other = setting).map (·.2)

/-- Reads the program to run. -/
def positional (s : Scan) (text : String) : Except UsageFault Scan :=
  if s.program.isSome then .error .unknownArgument else .ok { s with program := some text }

/-- Reads what is no option. -/
def plain (s : Scan) (text : String) : Except UsageFault Scan :=
  match s.awaiting with
  | some setting => .ok { s with values := s.values ++ [(setting, text)], awaiting := none }
  | none => s.positional text

/-- Reads an option. -/
def option (s : Scan) (setting : Setting) : Option String → Scan
  | some text =>
    { s with
      used := s.used ++ [setting]
      values := s.values ++ [(setting, text)]
      awaiting := none }
  | none => { s with used := s.used ++ [setting], awaiting := some setting }

/-- Reads one argument. -/
def next (s : Scan) (argument : String) : Except UsageFault Scan :=
  if s.ended then s.positional argument
  else
    match Token.ofArgument argument with
    | .endOfOptions => .ok { s with ended := true }
    | .option setting value => .ok (s.option setting value)
    | .help => .error .helpDisplayed
    | .unknown => .error .unknownArgument
    | .plain text => s.plain text

/-- Checks a command line that was read to its end: there is a program, every option has a value,
    and none is there twice. -/
def finish (s : Scan) : Except UsageFault Given :=
  match s.program with
  | none => .error .missingRequiredArgument
  | some program =>
    if s.used.any fun setting => (s.value? setting).isNone then .error .emptyValue
    else if s.used.Nodup then
      .ok {
        program
        stepsPerFrame := s.value? .stepsPerFrame
        scale := s.value? .scale
        seed := s.value? .seed }
    else .error .unexpectedMultipleUsage

end Scan

/-- What can keep the program from starting. -/
inductive StartFault where
  | usage (fault : UsageFault)
  | setting (fault : SettingFault)
  deriving Repr, DecidableEq

/-- The settings given on a command line. -/
def Given.ofArguments (arguments : List String) : Except UsageFault Given := do
  let scan ← arguments.foldlM Scan.next Scan.start
  scan.finish

/-- The settings of a command line. -/
def Settings.ofArguments (arguments : List String) : Except StartFault Settings := do
  let given ← (Given.ofArguments arguments).mapError .usage
  (Settings.ofGiven given).mapError .setting

end Chip8
