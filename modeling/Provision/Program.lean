import Provision.CommandLine

/-!
# The program

`Program.run` is a whole run of the program as a function: of the arguments, the environment, the
files and the time of day it makes the lines to print, the exit code and the files afterwards.
-/

namespace Provision

namespace Program

/-- The name of the program. -/
def name : String := "stratum"

/-- The version of the program. -/
def version : String := "0.1.0"

/-- How a run of the program ends. -/
structure Exit where
  code : Nat
  /-- The lines printed. -/
  lines : List String
  failure : Option Failure
  /-- The files afterwards. -/
  files : FileSystem

/-- A short account of the command line. -/
def usage : List String := [
  "Converge declared resources in dependency order",
  "",
  "Usage: " ++ name ++ " [OPTIONS] <COMMAND>",
  "",
  "Commands:",
  "  apply <MANIFEST>     Converge resources to match a manifest",
  "  destroy              Delete every resource recorded in the state file",
  "  refresh              Re-read every recorded resource and update the state file",
  "  graph <MANIFEST>     Print the execution order of a manifest",
  "  completions <SHELL>  Generate shell completions",
  "",
  "Options:",
  "  -v, --verbose                  Verbosity level",
  "  -q, --quiet                    Suppress non-essential output",
  "  -j, --jobs <JOBS>              Number of parallel workers",
  "      --state <STATE>            State file location",
  "      --ignore-field <DOT.PATH>  Attribute path to strip before a backend sees it",
  "      --local-root <LOCAL_ROOT>  Directory used by the Local backend",
  "  -y, --yes                      Skip confirmation prompt (apply, destroy)",
  "  -n, --dry-run                  Show the plan only (apply, destroy)"]

/-- The line that makes a shell complete the names of commands. -/
def completion (shell : String) : String :=
  let words := String.intercalate " " (CommandLine.Name.all.map CommandLine.Name.text)
  match shell with
  | "bash" => "complete -W '" ++ words ++ "' " ++ name
  | "zsh" => "compctl -k '(" ++ words ++ ")' " ++ name
  | "fish" => "complete -c " ++ name ++ " -f -a '" ++ words ++ "'"
  | "elvish" =>
    "set edit:completion:arg-completer[" ++ name ++ "] = \x7b|@args| put " ++ words ++ " \x7d"
  | _ =>
    "Register-ArgumentCompleter -Native -CommandName " ++ name ++ " -ScriptBlock \x7b -split '"
      ++ words ++ "' \x7d"

/-- The settings that hold for a command line. -/
def settings (env : Environment) (flags : Preferences) (fs : FileSystem) :
    Except Failure Settings := do
  let file ← Preferences.loadFrom env fs
  let stateDirectory ← env.stateDirectory
  return .resolve env file flags stateDirectory

/-- Carries out a command line that makes sense. -/
def carryOut (env : Environment) (invocation : CommandLine.Invocation) (consent : Option Bool)
    (now : Timestamp) (fs : FileSystem) : Exit :=
  match invocation.request with
  | .completions shell => ⟨0, [completion shell], none, fs⟩
  | .run command => match settings env invocation.flags fs with
    | .error f => ⟨1, [], some f, fs⟩
    | .ok settings =>
      let options : Options := {
        verbose := 0 < invocation.verbose
        quiet := invocation.quiet
        dryRun := invocation.dryRun
        consent := if invocation.yes then some true else consent }
      let r := command.run settings options now fs
      match r.result with
      | .ok () => ⟨0, r.lines, none, r.files⟩
      | .error f => ⟨1, r.lines, some f, r.files⟩

/-- Runs the program. `consent` is what the user answers if asked; nothing if nobody can be. -/
def run (env : Environment) (args : List String) (consent : Option Bool) (now : Timestamp)
    (fs : FileSystem) : Exit :=
  match CommandLine.parse env args with
  | .ok invocation => carryOut env invocation consent now fs
  | .error .misuse => ⟨2, [], none, fs⟩
  | .error .help => ⟨0, usage, none, fs⟩
  | .error (.version none) => ⟨0, [name ++ " " ++ version], none, fs⟩
  | .error (.version (some command)) => ⟨0, [name ++ "-" ++ command ++ " " ++ version], none, fs⟩

/-! ## Files -/

/-- The paths that a command looks at, apart from those of resources. -/
def paths (settings : Settings) (command : Command) : List String :=
  command.manifest?.toList ++
    [settings.stateFile, State.draftPath settings.stateFile, settings.localRoot]

/-- The paths of the resources that a command may change. -/
def resourcePaths (settings : Settings) (command : Command) (now : Timestamp) (fs : FileSystem) :
    List String :=
  let desired := (command.manifest?.bind fun p => (Manifest.load fs p).toOption).elim []
    Manifest.resources
  let recorded := (State.load fs settings.stateFile now).toOption.elim [] State.resources
  (desired ++ recorded).map (LocalFiles.path settings.localRoot)

end Program

end Provision
