import Fleet.Number.Reading

/-!
# Command lines

The options of a program and how they are read from its arguments and from environment variables.
Every option may stand once, in front of its value or joined to it; nothing else may stand on the
line.
-/

namespace Fleet.Cli

/-- What an option takes. -/
inductive Kind where
  /-- Nothing: the option is there or not. -/
  | switch
  /-- A value that satisfies a condition. -/
  | value (accepts : String → Bool)

/-- **An option.** -/
structure Setting where
  /-- The name after two dashes. -/
  name : String
  /-- The letter after one dash. -/
  letter : Option Char := none
  kind : Kind
  /-- The environment variable that stands in for the option. -/
  environment : Option String := none

/-- A value that is a natural number below a bound. -/
def Kind.natural (bound : Nat) : Kind := .value fun s => (Reading.natural? bound s).isSome

/-- A value that is a float. -/
def Kind.float : Kind := .value fun s => (Reading.float? s).isSome

/-- Any value. -/
def Kind.text : Kind := .value fun _ => true

/-- Options with the values that were given for them. The value of a switch is `true` or
`false`. -/
abbrev Given := List (String × String)

/-- Why a command line is not carried out. -/
inductive Refusal where
  /-- It asks for help. -/
  | help
  /-- It is not understood. -/
  | usage
deriving DecidableEq, Repr

/-- The options and values that a reading comes to. -/
abbrev Parsed := Except Refusal Given

/-- Adds an option, which must not be there yet and must accept its value. -/
def give (s : Setting) (value : String) (given : Given) : Parsed :=
  let accepted := match s.kind with
    | .switch => value = "true" || value = "false"
    | .value accepts => accepts value
  if accepted && (given.lookup s.name).isNone then .ok ((s.name, value) :: given)
  else .error .usage

/-- Whether an argument starts like an option. A dash alone does not. -/
def looksLikeOption (argument : String) : Bool :=
  match argument.toList with
  | '-' :: _ :: _ => true
  | _ => false

/-- The parts of a text before and after its first equals sign. -/
def splitEquals (cs : List Char) : String × Option String :=
  match cs.span (· ≠ '=') with
  | (name, '=' :: value) => (.ofList name, some (.ofList value))
  | (name, _) => (.ofList name, none)

/-- An option that is still to be given its value, if any. -/
abbrev Pending := Option Setting

/-- A named option with the value joined to it, if there is one. -/
def long (settings : List Setting) (name : String) (joined : Option String) (given : Given) :
    Except Refusal (Pending × Given) :=
  if name = "help" ∧ joined.isNone then .error .help
  else
    match settings.find? fun s => s.name = name with
    | none => .error .usage
    | some s =>
      match s.kind, joined with
      | .switch, none => (give s "true" given).map (none, ·)
      | .switch, some _ => .error .usage
      | .value _, some value => (give s value given).map (none, ·)
      | .value _, none => .ok (some s, given)

/-- Letters after one dash. Switches may be followed by more letters, and what follows the letter
of an option with a value is its value. -/
def letters (settings : List Setting) : List Char → Given → Except Refusal (Pending × Given)
  | [], given => .ok (none, given)
  | c :: cs, given =>
    match settings.find? fun s => s.letter = some c with
    | none => if c = 'h' then .error .help else .error .usage
    | some s =>
      match s.kind with
      | .switch => do letters settings cs (← give s "true" given)
      | .value _ =>
        match cs with
        | [] => .ok (some s, given)
        | '=' :: value => (give s (.ofList value) given).map (none, ·)
        | value => (give s (.ofList value) given).map (none, ·)

/-- Reads one argument after the other. -/
def readArguments (settings : List Setting) : List String → Pending → Given → Parsed
  | [], none, given => .ok given
  | [], some _, _ => .error .usage
  | argument :: rest, some s, given => do
    if looksLikeOption argument then throw .usage
    readArguments settings rest none (← give s argument given)
  | argument :: rest, none, given =>
    match argument.toList with
    | ['-', '-'] => if rest.isEmpty then .ok given else .error .usage
    | '-' :: '-' :: cs => do
      let (name, joined) := splitEquals cs
      let (pending, given) ← long settings name joined given
      readArguments settings rest pending given
    | '-' :: c :: cs => do
      let (pending, given) ← letters settings (c :: cs) given
      readArguments settings rest pending given
    | _ => .error .usage

/-- Fills in an option from its environment variable if it was not given. -/
def fromEnvironment (environment : List (String × String)) (given : Given) (s : Setting) : Parsed :=
  if (given.lookup s.name).isSome then .ok given
  else
    match s.environment.bind fun name => environment.lookup name with
    | none => .ok given
    | some value => give s value given

/-- **Reads a command line:** the arguments first, then the environment for what they do not
say. -/
def parse (settings : List Setting) (environment : List (String × String))
    (arguments : List String) : Parsed := do
  let given ← readArguments settings arguments none []
  settings.foldlM (fromEnvironment environment) given

/-- The value of an option that was given, read by `read`, or a default. -/
def Given.value {α : Type} (given : Given) (name : String) (read : String → Option α)
    (default : α) : α :=
  ((given.lookup name).bind read).getD default

/-- The natural number that an option was given. -/
def Given.natural (given : Given) (name : String) (default : Nat) : Nat :=
  given.value name (Reading.natural? (2 ^ 64)) default

/-- The float that an option was given. -/
def Given.float (given : Given) (name : String) (default : Float) : Float :=
  given.value name Reading.float? default

/-- Whether a switch is on. -/
def Given.switch (given : Given) (name : String) : Bool := given.lookup name = some "true"

/-- How a program ends: its exit code and what it says on the error stream. -/
structure Exit where
  code : Nat := 0
  complaint : String := ""
deriving DecidableEq, Repr

/-- The end of a program whose command line is not carried out. -/
def Refusal.exit : Refusal → Exit
  | .help => {}
  | .usage => { code := 2 }

end Fleet.Cli
