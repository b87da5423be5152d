import Provision.LocalFiles
import Provision.Manifest.File
import Provision.Plan.Report
import Provision.Run.Tally
import Provision.Run.Walk
import Provision.Settings
import Provision.State.File

/-!
# Commands

What the program does for its users: it applies a manifest, destroys or refreshes what is recorded,
or shows the order in which a manifest would be applied.

* `Plan.carryOut` shows a plan, asks for consent where it is due, walks the graph of the plan and
  sums up.
* `Command.run` does what a command asks for. Its `Report` has the lines to print, the failure if
  there is one, and the files as they are afterwards.
-/

namespace Provision

/-- What a command did. -/
structure Report where
  /-- The lines printed. -/
  lines : List String
  result : Except Failure Unit
  /-- The files afterwards. -/
  files : FileSystem

/-- How a command goes about it. -/
structure Options where
  /-- Show unchanged resources too. -/
  verbose : Bool
  /-- Show less of the state. -/
  quiet : Bool
  /-- Show the plan only. -/
  dryRun : Bool
  /-- The answer to the question whether to go on; nothing if nobody can be asked. -/
  consent : Option Bool
deriving DecidableEq, Inhabited

/-- What a user asks the program to do. -/
inductive Command where
  | apply (manifest : String)
  | destroy
  | refresh
  | graph (manifest : String)
deriving DecidableEq, Inhabited

/-! ## Lines -/

/-- A title and the line below it. -/
def titleLines (title : String) : List String :=
  ["", title, String.ofList (List.replicate title.length '─')]

/-- Where the state is and how far it has come. -/
def State.lines (s : State) (p : String) : List String :=
  titleLines "State" ++ ["  File: " ++ Text.keepEnd 60 p] ++
    if s.serial = 0 then ["  Serial: empty"]
    else [s!"  Serial: {s.serial}", s!"  Resources: {s.resources.length}",
      "  Modified: " ++ s.lastModified.clockText]

/-- How a walk ended. -/
def Summary.lines (s : Summary) (operation : Operation) : List String :=
  let count (n : Nat) (what : String) : List String :=
    if n = 0 then [] else [s!"    • {n} resources {what}"]
  ["", if s.isSuccess then s!"  ✓ {operation.text} finished successfully!"
    else s!"  ⚠ {operation.text} finished with errors"]
  ++ count s.created "created" ++ count s.updated "updated" ++ count s.deleted "deleted"
  ++ count s.refreshed "refreshed" ++ count s.skipped "skipped" ++ count s.failed "failed"
  ++ s.failures.map fun f => s!"    ✗ {f.1}: {f.2.text}"

/-- The serial order of a graph, with the action for each key and what it waits for. -/
def Graph.lines (g : Graph) : List String :=
  let line (key : String) (position : Nat) : String :=
    let action := (g.find? key).elim "" (·.action.text)
    let after := match g.dependencies key with
      | [] => ""
      | keys => "after " ++ String.intercalate ", " keys
    "  " ++ Text.padLeft 3 (toString (position + 1)) ++ ". " ++ key ++ " "
      ++ Text.padRight 10 action ++ " " ++ after
  titleLines "Execution Order" ++ g.order.zipIdx.map (fun p => line p.1 p.2) ++ [""]

/-! ## Runs -/

namespace Settings

/-- The surroundings of a run: what is recorded, local files as the only backend, and the state
file as the store. -/
def setup (settings : Settings) (operation : Operation) (s : State) (now : Timestamp) :
    Setup FileSystem where
  operation
  prior := s.index
  ignored := settings.ignored
  backends := Registry.empty.register LocalFiles.type (LocalFiles.backend settings.localRoot)
  store := fun s fs => match s.persist settings.stateFile fs with
    | (.ok (), fs) => (.ok (), fs)
    | (.error f, fs) => (.error f.text, fs)
  clock := fun _ => now

end Settings

namespace Plan

/-- Whether there is anything to carry out. -/
def needsRun (operation : Operation) (p : Plan) : Bool :=
  match operation with
  | .refresh => !p.isEmpty
  | .apply | .destroy => p.hasChanges

/-- The run before the first step. Each node reports at most twice, so no event is dropped. -/
def firstRun (p : Plan) (s : State) (fs : FileSystem) : Run FileSystem where
  known := s.index
  recorded := s.index
  state := s
  cancelled := false
  progress := some (.ofCapacity (2 * p.length))
  world := fs
  history := []

/-- Walks the graph of a plan and sums up. -/
def walk (settings : Settings) (g : Graph) (s : State) (now : Timestamp) (fs : FileSystem) :
    Report :=
  let w := g.walk (settings.setup g.operation s now) settings.jobs (g.plan.firstRun s fs) .empty
  let events := w.run.progress.elim [] (·.waiting)
  { lines := ["", s!"  → Running {g.operation.text} on {g.size} resources..."]
      ++ events.filterMap Event.line? ++ w.summary.lines g.operation
    result := w.summary.check
    files := w.run.world }

/-- Shows a plan, asks for consent where it is due, and carries the plan out. A refresh needs no
consent, since it changes nothing but the state. -/
def carryOut (settings : Settings) (options : Options) (operation : Operation) (p : Plan)
    (s : State) (now : Timestamp) (fs : FileSystem) : Report :=
  let shown := p.report operation options.verbose
  if !p.needsRun operation then
    { lines := shown ++ if operation = .refresh ∨ p.isEmpty then []
        else ["", "  ✓ No changes needed"]
      result := .ok ()
      files := fs }
  else match Graph.build operation p with
    | .error e => ⟨shown, .error (.invalidGraph e), fs⟩
    | .ok g =>
      if options.dryRun then ⟨shown ++ ["", "  ℹ Dry run - no changes made"], .ok (), fs⟩
      else match if operation = .refresh then some true else options.consent with
        | none => ⟨shown, .error .unconfirmed, fs⟩
        | some false => ⟨shown ++ ["", "  ✗ Aborted"], .ok (), fs⟩
        | some true =>
          let r := walk settings g s now fs
          { r with lines := shown ++ r.lines }

end Plan

/-! ## Commands -/

namespace Report

/-- A report that is a failure where something needed could not be had. -/
def ofExcept (fs : FileSystem) : Except Failure Report → Report
  | .ok r => r
  | .error f => ⟨[], .error f, fs⟩

/-- A report with the state in front. -/
def withState (r : Report) (settings : Settings) (options : Options) (s : State) : Report :=
  if options.quiet then r else { r with lines := s.lines settings.stateFile ++ r.lines }

end Report

namespace Command

/-- The question before the plan of a command is carried out, and what an empty answer means. -/
def question : Command → String × Bool
  | .destroy => ("Destroy all listed resources?", false)
  | _ => ("Continue?", true)

/-- The manifest that a command reads. -/
def manifest? : Command → Option String
  | .apply manifest | .graph manifest => some manifest
  | .destroy | .refresh => none

/-- Does what a command asks for. -/
def run (settings : Settings) (options : Options) (now : Timestamp) (fs : FileSystem)
    (command : Command) : Report :=
  .ofExcept fs do
    match command with
    | .apply manifest =>
      let m ← Manifest.load fs manifest
      let s ← State.load fs settings.stateFile now
      let p := Plan.apply m.resources s.index settings.ignored
      return (p.carryOut settings options .apply s now fs).withState settings options s
    | .destroy =>
      let s ← State.load fs settings.stateFile now
      let p := Plan.destroy s.index
      return (p.carryOut settings options .destroy s now fs).withState settings options s
    | .refresh =>
      let s ← State.load fs settings.stateFile now
      let p := Plan.refresh s.index
      let options := { options with dryRun := false }
      return (p.carryOut settings options .refresh s now fs).withState settings options s
    | .graph manifest =>
      let m ← Manifest.load fs manifest
      let s ← State.load fs settings.stateFile now
      match Graph.build .apply (Plan.apply m.resources s.index settings.ignored) with
      | .error e => throw (.invalidGraph e)
      | .ok g => return ⟨g.lines, .ok (), fs⟩

end Command

end Provision
