import Provision.Environment
import Provision.FieldPath
import Provision.FileSystem
import Provision.Toml.Reader

/-!
# Settings

Preferences come from a file and from the command line, and each of them may leave anything open.
`Settings.resolve` joins them: the command line wins, ignored fields add up, and defaults fill the
gaps.
-/

namespace Provision

/-- What a user asks for. -/
structure Preferences where
  /-- How many workers carry out nodes side by side. -/
  jobs : Option Nat
  /-- Dotted paths of fields that no backend sees. -/
  ignored : List String
  stateFile : Option String
  /-- The directory of the local resources. -/
  localRoot : Option String
deriving DecidableEq, Inhabited

namespace Preferences

/-- Nothing in particular. -/
def none : Preferences := ⟨.none, [], .none, .none⟩

/-- The names of the fields in a file. -/
def fieldNames : List String := ["jobs", "ignore_fields", "state_file", "local_root"]

/-- A number of workers: an integer of 64 bits that is not negative. -/
def jobs? : Json → Option Nat
  | .number (.int i) => if 0 ≤ i ∧ i < UInt64.size then some i.toNat else .none
  | _ => .none

/-- The preferences of a document; each of them may be left out. -/
def ofJson? (j : Json) : Option Preferences := do
  match ← j.record? fieldNames with
  | [jobs, ignored, stateFile, localRoot] =>
    return {
      jobs := ← jobs.elim (some .none) fun j => (jobs? j).map some
      ignored := ← ignored.elim (some []) (Json.items? Json.string?)
      stateFile := ← stateFile.elim (some .none) fun j => j.string?.map some
      localRoot := ← localRoot.elim (some .none) fun j => j.string?.map some }
  | _ => .none

/-- The preferences in a file, if there is one. -/
def load (fs : FileSystem) (p : String) : Except Failure Preferences :=
  if !fs.contains p then .ok none
  else match fs.read p with
    | .error e => .error (.unreadable .settingsFile p e.text)
    | .ok text => match (Toml.parse text).bind ofJson? with
      | .none => .error (.unparsable .settingsFile p)
      | some preferences => .ok preferences

/-- The file in the configuration directory. -/
def path (configDirectory : String) : String := Path.join configDirectory "config.toml"

/-- The preferences in the configuration directory. -/
def loadFrom (env : Environment) (fs : FileSystem) : Except Failure Preferences := do
  load fs (path (← env.configDirectory))

end Preferences

/-- What holds for a run. -/
structure Settings where
  jobs : Nat
  ignored : List FieldPath
  stateFile : String
  localRoot : String
deriving DecidableEq, Inhabited

namespace Settings

/-- How many workers there are unless somebody asks for another number. -/
def defaultJobs : Nat := 4

/-- The field paths of some texts, each once; paths that name no field are left out. -/
def fieldPaths (texts : List String) : List FieldPath :=
  ((texts.map FieldPath.parse).filter (!·.isEmpty)).eraseDups

/-- Joins the preferences of a file with those of the command line. Paths that nobody asks for are
below `stateDirectory`. -/
def resolve (env : Environment) (file flags : Preferences) (stateDirectory : String) : Settings where
  jobs := (flags.jobs <|> file.jobs).getD defaultJobs
  ignored := fieldPaths (file.ignored ++ flags.ignored)
  stateFile := ((flags.stateFile <|> file.stateFile).map env.expand).getD
    (Path.join stateDirectory "state.json")
  localRoot := ((flags.localRoot <|> file.localRoot).map env.expand).getD
    (Path.join stateDirectory "resources")

end Settings

end Provision
