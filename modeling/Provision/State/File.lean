import Provision.Failure
import Provision.FileSystem
import Provision.Json.Printer
import Provision.State.Json

/-!
# State files

The state is kept as JSON in one file. `State.load` reads it, and `State.persist` writes it: first
into a file beside it, which then takes its place, so that the file holds the old state or the new
one and never a part.
-/

namespace Provision

namespace State

/-- The state in a file; nothing exists yet if there is no such file. -/
def load (fs : FileSystem) (p : String) (now : Timestamp) : Except Failure State :=
  if !fs.contains p then .ok (.empty now)
  else match fs.read p with
    | .error e => .error (.unreadable .stateFile p e.text)
    | .ok text => match parse text with
      | none => .error (.unparsable .stateFile p)
      | some s => .ok s

/-- The file that a new state is written into. -/
def draftPath (p : String) : String := Path.withExtension p "json.tmp"

/-- Makes the directory of the file, if it is not the current one. -/
def makeDirectory (fs : FileSystem) (p : String) : Except Failure Unit × FileSystem :=
  match Path.parent? p with
  | none => (.ok (), fs)
  | some directory => match fs.makeDirectories directory with
    | (.ok (), fs) => (.ok (), fs)
    | (.error e, fs) => (.error (.noStateDirectory directory e.text), fs)

/-- Writes the state to a file. -/
def persist (s : State) (p : String) (fs : FileSystem) : Except Failure Unit × FileSystem :=
  match makeDirectory fs p with
  | (.error f, fs) => (.error f, fs)
  | (.ok (), fs) => match fs.write (draftPath p) (.text s.toJson.pretty) with
    | .error e => (.error (.stateNotWritten (draftPath p) e.text), fs)
    | .ok fs => match fs.replace (draftPath p) p with
      | .error e => (.error (.stateNotReplaced p e.text), fs)
      | .ok fs => (.ok (), fs)

end State

end Provision
