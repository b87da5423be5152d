import Provision.Command
import Provision.Text

/-!
# Command lines

Arguments are read from left to right. Options may stand before the name of a command and after
it; what is given after the name wins. `CommandLine.parse` reads a whole command line, and an
environment fills in options that nobody gave.

* `Switch` and `Valued` are the options, without and with a value.
* `Stop` is what ends the reading early: a mistake, or a question about the program itself.
-/

namespace Provision

namespace CommandLine

/-- What ends the reading of a command line early. -/
inductive Stop where
  /-- The arguments make no sense. -/
  | misuse
  | help
  /-- The version is asked for, of the program or of one command. -/
  | version (command : Option String)
deriving DecidableEq

/-- Options without a value. -/
inductive Switch where
  | verbose
  | quiet
  | yes
  | dryRun
  | help
  | version
deriving DecidableEq

/-- Options with a value. -/
inductive Valued where
  | jobs
  | state
  | ignoreField
  | localRoot
deriving DecidableEq

/-- The shells with completions. -/
def shells : List String := ["bash", "elvish", "fish", "powershell", "zsh"]

/-- The names of commands. -/
inductive Name where
  | apply
  | destroy
  | refresh
  | graph
  | completions
  | help
deriving DecidableEq

namespace Name

/-- The word on a command line. -/
def text : Name → String
  | .apply => "apply"
  | .destroy => "destroy"
  | .refresh => "refresh"
  | .graph => "graph"
  | .completions => "completions"
  | .help => "help"

/-- Every name. -/
def all : List Name := [.apply, .destroy, .refresh, .graph, .completions, .help]

/-- The name that a word is. -/
def ofText? (s : String) : Option Name := all.find? (·.text = s)

/-- Whether the command changes things on consent. -/
def asks : Name → Bool
  | .apply | .destroy => true
  | _ => false

/-- Whether the command takes an argument: the path of a manifest, the name of a shell or that of a
command. -/
def accepts (value : String) : Name → Bool
  | .apply | .graph => value ≠ ""
  | .completions => shells.contains value
  | .help => (ofText? value).isSome
  | .destroy | .refresh => false

end Name

/-- The name of an option, which stands after two dashes. -/
def longOption? (command : Option Name) : String → Option (Switch ⊕ Valued)
  | "verbose" => some (.inl .verbose)
  | "quiet" => some (.inl .quiet)
  | "help" => some (.inl .help)
  | "version" => some (.inl .version)
  | "jobs" => some (.inr .jobs)
  | "state" => some (.inr .state)
  | "ignore-field" => some (.inr .ignoreField)
  | "local-root" => some (.inr .localRoot)
  | "yes" => if command.any Name.asks then some (.inl .yes) else none
  | "dry-run" => if command.any Name.asks then some (.inl .dryRun) else none
  | _ => none

/-- The letter of an option, which stands after one dash. -/
def shortOption? (command : Option Name) : Char → Option (Switch ⊕ Valued)
  | 'v' => some (.inl .verbose)
  | 'q' => some (.inl .quiet)
  | 'h' => some (.inl .help)
  | 'V' => some (.inl .version)
  | 'j' => some (.inr .jobs)
  | 'y' => if command.any Name.asks then some (.inl .yes) else none
  | 'n' => if command.any Name.asks then some (.inl .dryRun) else none
  | _ => none

/-! ## Levels -/

/-- What is given on one side of the name of the command. -/
structure Level where
  command : Option Name
  verbose : Nat
  quiet : Bool
  yes : Bool
  dryRun : Bool
  flags : Preferences
  argument : Option String

namespace Level

/-- Nothing is given yet. -/
def start (command : Option Name) : Level := ⟨command, 0, false, false, false, .none, none⟩

/-- Turns a switch on, which may be done once; only verbosity counts up. -/
def turnOn (l : Level) : Switch → Except Stop Level
  | .verbose => .ok { l with verbose := l.verbose + 1 }
  | .quiet => if l.quiet then .error .misuse else .ok { l with quiet := true }
  | .yes => if l.yes then .error .misuse else .ok { l with yes := true }
  | .dryRun => if l.dryRun then .error .misuse else .ok { l with dryRun := true }
  | .help => .error .help
  | .version => .error (.version (l.command.map Name.text))

/-- Gives an option its value, which may be done once; only ignored fields add up. -/
def give (l : Level) (option : Valued) (value : String) : Except Stop Level :=
  match option with
  | .jobs => match l.flags.jobs, Text.natural? value with
    | none, some n => .ok { l with flags := { l.flags with jobs := some n } }
    | _, _ => .error .misuse
  | .state =>
    if l.flags.stateFile.isSome then .error .misuse
    else .ok { l with flags := { l.flags with stateFile := some value } }
  | .ignoreField => .ok { l with flags := { l.flags with ignored := l.flags.ignored ++ [value] } }
  | .localRoot =>
    if l.flags.localRoot.isSome then .error .misuse
    else .ok { l with flags := { l.flags with localRoot := some value } }

/-- Takes the argument of the command, of which there is one at most. -/
def take (l : Level) (value : String) : Except Stop Level :=
  if l.argument.isNone && l.command.any (·.accepts value) then
    .ok { l with argument := some value }
  else .error .misuse

/-- Reads letters that stand together after one dash. A letter of an option with a value takes the
rest, without an equals sign; at the end it waits for the next argument. -/
def readLetters (l : Level) : List Char → Except Stop (Level × Option Valued)
  | [] => .ok (l, none)
  | c :: cs => match shortOption? l.command c, cs with
    | none, _ => .error .misuse
    | some (.inl switch), cs => do (← l.turnOn switch).readLetters cs
    | some (.inr option), [] => .ok (l, some option)
    | some (.inr option), '=' :: value => do return (← l.give option (String.ofList value), none)
    | some (.inr option), value => do return (← l.give option (String.ofList value), none)

/-- Reads a name after two dashes, perhaps with a value after an equals sign. -/
def readName (l : Level) (cs : List Char) : Except Stop (Level × Option Valued) :=
  let name := String.ofList (cs.takeWhile (· ≠ '='))
  match longOption? l.command name, cs.dropWhile (· ≠ '=') with
  | some (.inl switch), [] => do return (← l.turnOn switch, none)
  | some (.inr option), [] => .ok (l, some option)
  | some (.inr option), _ :: value => do return (← l.give option (String.ofList value), none)
  | _, _ => .error .misuse

/-- What the environment gives where no option does. -/
def fill (l : Level) (env : Environment) : Except Stop Level := do
  let l ← match l.flags.jobs, env.get? "STRATUM_JOBS" with
    | none, some value => l.give .jobs value
    | _, _ => pure l
  match l.flags.stateFile, env.get? "STRATUM_STATE_FILE" with
  | none, some value => l.give .state value
  | _, _ => return l

end Level

/-! ## Reading -/

/-- A command line under way. -/
structure Reading where
  before : Level
  /-- What is given after the name of the command, once there is one. -/
  after : Option Level
  /-- The option that the next argument is the value of. -/
  waiting : Option Valued
  /-- Two dashes alone have been read, so no more options follow. -/
  plain : Bool

namespace Reading

/-- Nothing is read yet. -/
def start : Reading := ⟨.start none, none, none, false⟩

/-- The level that the next argument belongs to. -/
def level (r : Reading) : Level := r.after.getD r.before

/-- The reading with another current level. -/
def withLevel (r : Reading) (l : Level) : Reading :=
  match r.after with
  | none => { r with before := l }
  | some _ => { r with after := some l }

/-- Reads an argument that is no option. -/
def readPlain (r : Reading) (arg : String) : Except Stop Reading :=
  match r.after, r.plain, Name.ofText? arg with
  | none, false, some name => .ok { r with after := some (.start (some name)) }
  | _, _, _ => do return r.withLevel (← r.level.take arg)

/-- Reads one argument. The command for help has no options. -/
def step (r : Reading) (arg : String) : Except Stop Reading :=
  if r.plain || r.level.command = some .help then r.readPlain arg
  else match r.waiting, arg.toList with
    | some _, '-' :: _ :: _ => .error .misuse
    | some option, _ => do
      return { r.withLevel (← r.level.give option arg) with waiting := none }
    | none, ['-', '-'] => .ok { r with plain := true }
    | none, '-' :: '-' :: cs => do
      let (l, waiting) ← r.level.readName cs
      return { r.withLevel l with waiting }
    | none, '-' :: c :: cs => do
      let (l, waiting) ← r.level.readLetters (c :: cs)
      return { r.withLevel l with waiting }
    | none, _ => r.readPlain arg

end Reading

/-! ## Requests -/

/-- What a command line asks for. -/
inductive Request where
  | run (command : Command)
  /-- The completions for a shell. -/
  | completions (shell : String)
deriving DecidableEq

/-- A whole command line. -/
structure Invocation where
  request : Request
  verbose : Nat
  quiet : Bool
  yes : Bool
  dryRun : Bool
  flags : Preferences
deriving DecidableEq

/-- What is asked for after the name of a command. -/
def Level.request (l : Level) : Except Stop Request :=
  match l.command, l.argument with
  | some .apply, some manifest => .ok (.run (.apply manifest))
  | some .destroy, _ => .ok (.run .destroy)
  | some .refresh, _ => .ok (.run .refresh)
  | some .graph, some manifest => .ok (.run (.graph manifest))
  | some .completions, some shell => .ok (.completions shell)
  | some .help, _ => .error .help
  | _, _ => .error .misuse

/-- Joins both sides of the name. An option on the command line goes before one in the
environment, and of two on the command line the one after the name counts. -/
def join (before after : Level) (env : Environment) (request : Request) :
    Except Stop Invocation := do
  let _ ← before.fill env
  let flags := { after.flags with
    jobs := after.flags.jobs <|> before.flags.jobs
    ignored := if after.flags.ignored.isEmpty then before.flags.ignored else after.flags.ignored
    stateFile := after.flags.stateFile <|> before.flags.stateFile
    localRoot := after.flags.localRoot <|> before.flags.localRoot }
  let _ ← after.fill env
  let filled ← { after with flags }.fill env
  return {
    request
    verbose := if after.verbose = 0 then before.verbose else after.verbose
    quiet := before.quiet || after.quiet
    yes := after.yes
    dryRun := after.dryRun
    flags := filled.flags }

/-- Reads a command line. -/
def parse (env : Environment) (args : List String) : Except Stop Invocation := do
  let r ← args.foldlM Reading.step .start
  match r.waiting, r.after with
  | none, some after => join r.before after env (← after.request)
  | _, _ => throw .misuse

end CommandLine

end Provision
