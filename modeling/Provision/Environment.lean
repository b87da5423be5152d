import Provision.Failure
import Provision.Path
import Provision.Text.Word

/-!
# Environments

The variables of a process and the home directory of its account.

* `Environment.expand` replaces variables and the home directory in a path.
* `Environment.configDirectory` and `Environment.stateDirectory` are where the program keeps its
  files unless it is told otherwise.
-/

namespace Provision

/-- The surroundings of a process. -/
structure Environment where
  bindings : Fields String
  /-- The home directory on record for the account. -/
  accountHome : Option String
deriving DecidableEq, Inhabited

namespace Environment

/-- The value of a variable. -/
def get? (env : Environment) (name : String) : Option String := Fields.get? name env.bindings

/-- The home directory: the variable `HOME`, unless it is empty. -/
def home? (env : Environment) : Option String :=
  match env.get? "HOME" with
  | some home => if home = "" then env.accountHome else some home
  | none => env.accountHome

/-! ## Expansion -/

/-- Whether a character may stand in the name of a variable outside braces. -/
def isNameChar (c : Char) : Bool := Text.isWord c || c = '_'

/-- What stands before and after the first `:-`. -/
def splitAtDefault : List Char → List Char × Option (List Char)
  | [] => ([], none)
  | ':' :: '-' :: cs => ([], some cs)
  | c :: cs =>
    let (name, byDefault) := splitAtDefault cs
    (c :: name, byDefault)

/-- The value of what stands between braces: a name, perhaps with a default after it. -/
def braced? (env : Environment) (inside : List Char) : Option String :=
  match splitAtDefault inside with
  | ([], _) | (_, none) => env.get? (String.ofList inside)
  | (name, some byDefault) =>
    (env.get? (String.ofList name)).getD (String.ofList byDefault)

/-- Replaces the variables of a text, in at most `fuel` steps. Two dollars stand for one, and a
dollar that starts nothing for itself. Nothing if a variable has neither a value nor a default. -/
def expandVariables (env : Environment) : Nat → List Char → Option (List Char)
  | 0, cs => some cs
  | _, [] => some []
  | fuel + 1, '$' :: '$' :: cs => (env.expandVariables fuel cs).map ('$' :: ·)
  | fuel + 1, '$' :: '{' :: cs =>
    match cs.dropWhile (· ≠ '}') with
    | [] => (env.expandVariables fuel cs).map ('$' :: '{' :: ·)
    | _ :: rest => do
      let value ← env.braced? (cs.takeWhile (· ≠ '}'))
      let rest ← env.expandVariables fuel rest
      return value.toList ++ rest
  | fuel + 1, '$' :: cs =>
    match cs.takeWhile isNameChar with
    | [] => (env.expandVariables fuel cs).map ('$' :: ·)
    | name => do
      let value ← env.get? (String.ofList name)
      let rest ← env.expandVariables fuel (cs.dropWhile isNameChar)
      return value.toList ++ rest
  | fuel + 1, c :: cs => (env.expandVariables fuel cs).map (c :: ·)

/-- Replaces a leading `~`, alone or before a slash, by the home directory. -/
def expandHome (env : Environment) : List Char → List Char
  | ['~'] => (env.home?.getD "~").toList
  | '~' :: '/' :: cs => (env.home?.getD "~").toList ++ '/' :: cs
  | cs => cs

/-- Replaces variables and the home directory in a path; a `~` that came out of a variable stays.
A path with a variable that has no value stays as it is. -/
def expand (env : Environment) (p : String) : String :=
  match env.expandVariables p.length p.toList with
  | none => p
  | some cs => String.ofList (if p.toList.head? = some '~' then env.expandHome cs else cs)

/-! ## Directories -/

/-- A directory of the program: the one that the variable `own` names, else one under the
directory that `shared` names, else one under the home directory. -/
def directory (env : Environment) (own shared : String) (underHome : List String) :
    Except Failure String :=
  match env.get? own, env.get? shared, env.home? with
  | some d, _, _ => .ok (env.expand d)
  | none, some d, _ => .ok (Path.join d "stratum")
  | none, none, some home => .ok (Path.join (underHome.foldl Path.join home) "stratum")
  | none, none, none => .error .noHomeDirectory

/-- Where settings are kept. -/
def configDirectory (env : Environment) : Except Failure String :=
  env.directory "STRATUM_CONFIG_DIR" "XDG_CONFIG_HOME" [".config"]

/-- Where state and resources are kept. -/
def stateDirectory (env : Environment) : Except Failure String :=
  env.directory "STRATUM_STATE_DIR" "XDG_STATE_HOME" [".local", "state"]

end Environment

end Provision
