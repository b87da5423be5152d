import Provision.FileSystem
import Provision.Json.Reader
import Provision.Manifest
import Provision.Resource.Json
import Provision.Toml.Reader

/-!
# Manifest files

A manifest is kept as JSON or as TOML; the extension of the file decides. `Manifest.load` reads,
parses and checks one.
-/

namespace Provision

namespace Manifest

/-- The names of the fields. -/
def fieldNames : List String := ["resources"]

/-- The document of a manifest. -/
def toJson (m : Manifest) : Json := .object [("resources", .array (m.resources.map Resource.toJson))]

/-- The manifest of a document whose items `item` reads; the resources may be left out. -/
def ofJsonWith? (item : Json → Option Resource) (j : Json) : Option Manifest := do
  match ← j.record? fieldNames with
  | [resources] => return ⟨← resources.elim (some []) (Json.items? item)⟩
  | _ => none

/-- The manifest of a document. -/
def ofJson? (j : Json) : Option Manifest := ofJsonWith? Resource.ofJson? j

/-- The manifest of a TOML document. There the array form of a resource may go on after its
fields. -/
def ofToml? (j : Json) : Option Manifest :=
  ofJsonWith? (fun
    | .array items => Resource.ofJson? (.array (items.take Resource.fieldNames.length))
    | item => Resource.ofJson? item) j

/-- The formats of manifest files. -/
inductive Format where
  | json
  | toml
deriving DecidableEq

/-- The format with the given extension. -/
def Format.ofExtension? : String → Option Format
  | "json" => some .json
  | "toml" => some .toml
  | _ => none

/-- The manifest of a text. JSON is read up to the limit of nesting. -/
def parse (format : Format) (text : String) : Option Manifest :=
  match format with
  | .toml => (Toml.parse text).bind ofToml?
  | .json => do
    let m ← ofJson? (← Json.parse text)
    if m.toJson.depth ≤ Json.depthLimit then some m else none

/-- The checked manifest in a file. -/
def load (fs : FileSystem) (p : String) : Except Failure Manifest :=
  match fs.read p with
  | .error e => .error (.unreadable .manifest p e.text)
  | .ok text =>
    let extension := (Path.extension? p).getD ""
    match Format.ofExtension? extension with
    | none => .error (.unsupportedFormat extension p)
    | some format => match parse format text with
      | none => .error (.unparsable .manifest p)
      | some m => m.validate.map fun _ => m

end Manifest

end Provision
