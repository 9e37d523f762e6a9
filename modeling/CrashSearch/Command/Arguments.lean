/-!
# Command-line arguments

A command line names one of two commands and gives options before or behind it. An option is
written `--name value`, `--name=value`, `-n value`, `-nvalue` or `-n=value`, and at most once in
each of the two places.

## Main definitions

* `Request`: what a command is to do.
* `Invocation`: a request with the file of the settings.
* `Arguments.parse`: the invocation of a command line.
-/

namespace CrashSearch

/-- What a command is to do. -/
inductive Request where
  /-- Score the executions of a scenario. -/
  | fitness (scenario : String)
  /-- List the methods that a call can reach, and write their joined graph to a file. -/
  | resolve (scenario className methodName : String) (dot : Option String)
  deriving DecidableEq

/-- A request, and the file with the settings. -/
structure Invocation where
  config : Option String
  request : Request
  deriving DecidableEq

/-- Why a command line leads to no request. -/
inductive Stop where
  | help
  | version
  /-- The arguments do not fit. -/
  | usage
  deriving DecidableEq

namespace Arguments

/-- A switch of a command that takes a value. -/
structure Setting where
  name : String
  letter : Option Char
  /-- Whether the value may be empty. -/
  mayBeEmpty : Bool

/-- The file with the settings; it may be given in both places. -/
def config : Setting := ⟨"config", some 'c', false⟩

/-- The file with the scenario. -/
def scenario : Setting := ⟨"scenario", some 's', false⟩

/-- What can be given to the command `fitness`. -/
def ofFitness : List Setting := [config, scenario]

/-- What can be given to the command `resolve`. -/
def ofResolve : List Setting :=
  [config, scenario, ⟨"class", none, true⟩, ⟨"method", none, true⟩, ⟨"dot", none, true⟩]

/-- What an argument is by its form. -/
inductive Form where
  /-- Two dashes alone. -/
  | escape
  | long (name : String) (value : Option String)
  | short (letter : Char) (rest : List Char)
  /-- No option. -/
  | plain

/-- The form of an argument. -/
def form (argument : String) : Form :=
  match argument.toList with
  | ['-', '-'] => .escape
  | '-' :: '-' :: rest =>
    let name := String.ofList (rest.takeWhile (· ≠ '='))
    match rest.dropWhile (· ≠ '=') with
    | [] => .long name none
    | _ :: value => .long name (some (String.ofList value))
  | '-' :: letter :: rest => .short letter rest
  | _ => .plain

/-- The options that were given, by name. -/
abbrev Given := List (String × String)

/-- Takes the value of an option, which may be given once. -/
def give (given : Given) (o : Setting) (value : String) : Except Stop Given :=
  if (given.lookup o.name).isSome ∨ (value = "" ∧ !o.mayBeEmpty) then .error .usage
  else .ok ((o.name, value) :: given)

/-- The options that begin the arguments, and what follows them from the first argument on that
is none. Behind two dashes nothing may follow. The version can be asked for before the command. -/
def options (settings : List Setting) (outer : Bool) (given : Given) :
    List String → Except Stop (Given × List String)
  | [] => .ok (given, [])
  | argument :: rest =>
    match form argument with
    | .plain => .ok (given, argument :: rest)
    | .escape => if rest = [] then .ok (given, []) else .error .usage
    | .long name attached =>
      match settings.find? (·.name = name), attached with
      | some o, some value => do options settings outer (← give given o value) rest
      | some o, none =>
        match rest with
        | value :: rest =>
          match form value with
          | .plain => do options settings outer (← give given o value) rest
          | _ => .error .usage
        | [] => .error .usage
      | none, some _ => .error .usage
      | none, none =>
        if name = "help" then .error .help
        else if name = "version" ∧ outer then .error .version
        else .error .usage
    | .short letter attached =>
      match settings.find? (·.letter = some letter), attached with
      | some o, '=' :: value => do
        options settings outer (← give given o (String.ofList value)) rest
      | some o, c :: cs => do
        options settings outer (← give given o (String.ofList (c :: cs))) rest
      | some o, [] =>
        match rest with
        | value :: rest =>
          match form value with
          | .plain => do options settings outer (← give given o value) rest
          | _ => .error .usage
        | [] => .error .usage
      | none, _ =>
        if letter = 'h' then .error .help
        else if letter = 'V' ∧ outer then .error .version
        else .error .usage

/-- The options of a command, behind which nothing may follow. -/
def allOptions (settings : List Setting) (arguments : List String) : Except Stop Given := do
  match ← options settings false [] arguments with
  | (given, []) => return given
  | _ => throw .usage

/-- A value that has to be given. -/
def required (given : Given) (name : String) : Except Stop String :=
  match given.lookup name with
  | some value => .ok value
  | none => .error .usage

/-- The invocation that a command line asks for. The file of the settings that is given behind the
command counts before the one given in front of it. -/
def parse (arguments : List String) : Except Stop Invocation := do
  let (outer, rest) ← options [config] true [] arguments
  match rest with
  | "fitness" :: rest =>
    let given ← allOptions ofFitness rest
    let path ← required given "scenario"
    return ⟨(given.lookup "config").or (outer.lookup "config"), .fitness path⟩
  | "resolve" :: rest =>
    let given ← allOptions ofResolve rest
    let path ← required given "scenario"
    let className ← required given "class"
    let methodName ← required given "method"
    return ⟨(given.lookup "config").or (outer.lookup "config"),
      .resolve path className methodName (given.lookup "dot")⟩
  | ["help"] => throw .help
  | ["help", name] => throw (if name ∈ ["fitness", "resolve", "help"] then .help else .usage)
  | _ => throw .usage

end Arguments

end CrashSearch
