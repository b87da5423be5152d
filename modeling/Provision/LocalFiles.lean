import Provision.Backend
import Provision.FileSystem
import Provision.Json.Printer
import Provision.Json.Reader

/-!
# Local files

The backend for resources that are files: the attributes of each resource stand as JSON in a file
of their own below one directory.

* `LocalFiles.path` names the file of a resource.
* `LocalFiles.apply`, `delete` and `read` are the calls; `LocalFiles.backend` puts them together.
-/

namespace Provision

namespace LocalFiles

/-- The type of the resources that are files. -/
def type : String := "Local"

/-- The name of the file for an id. A slash in an id would lead elsewhere, so an underscore stands
for it. -/
def fileName (id : String) : String :=
  String.ofList (id.toList.map fun c => if c = '/' ∨ c = '\\' then '_' else c) ++ ".json"

/-- The file of a resource. -/
def path (root : String) (r : Resource) : String := Path.join root (fileName r.id)

/-- A refusal by this backend. -/
def refusal {α : Type} (message : String) : Reply α := .refused ⟨.backendFailure, message⟩

/-- Writes the attributes of a planned resource. -/
def write (root : String) (planned : Resource) (fs : FileSystem) :
    Reply Resource × FileSystem :=
  match fs.makeDirectories root with
  | (.error e, fs) => (refusal s!"failed to create {root}: {e.text}", fs)
  | (.ok (), fs) => match fs.write (path root planned) (.text planned.attributes.toJson.pretty) with
    | .error e => (refusal s!"failed to write {path root planned}: {e.text}", fs)
    | .ok fs => (.returned planned, fs)

/-- Writes the attributes of a planned resource, unless the run is cancelled. -/
def apply (root : String) (planned : Resource) (cancelled : Bool) (fs : FileSystem) :
    Outcome FileSystem Resource :=
  if cancelled then ⟨refusal s!"cancelled before writing {planned.id}", false, fs⟩
  else
    let (reply, fs) := write root planned fs
    ⟨reply, false, fs⟩

/-- Removes the file of a resource; a file that does not exist is fine too. -/
def delete (root : String) (prior : Resource) (fs : FileSystem) : Outcome FileSystem Unit :=
  match fs.remove (path root prior) with
  | .ok fs => ⟨.returned (), false, fs⟩
  | .error .notFound => ⟨.returned (), false, fs⟩
  | .error e => ⟨refusal s!"failed to remove {path root prior}: {e.text}", false, fs⟩

/-- The attributes in a text, which is nested no deeper than the limit. -/
def parse (text : String) : Option Attributes := do
  let j ← Json.parse text
  if j.depth ≤ Json.depthLimit then Attributes.ofJson? j else none

/-- Reads the attributes of a resource; it no longer exists if its file does not. -/
def read (root : String) (prior : Resource) (fs : FileSystem) :
    Outcome FileSystem (Option Resource) :=
  let reply : Reply (Option Resource) := match fs.read (path root prior) with
    | .error .notFound => .returned none
    | .error e => refusal s!"failed to read {path root prior}: {e.text}"
    | .ok text => match parse text with
      | none => refusal s!"failed to parse {path root prior}"
      | some attributes => .returned (some { prior with attributes })
  ⟨reply, false, fs⟩

/-- The backend for files below `root`. -/
def backend (root : String) : Backend FileSystem where
  apply := fun _ planned cancelled fs => apply root planned cancelled fs
  delete := fun prior _ fs => delete root prior fs
  read := fun prior _ fs => read root prior fs

end LocalFiles

end Provision
