import Provision.Json.Reader
import Provision.Resource.Json
import Provision.State
import Provision.Timestamp.Reader

/-!
# State as JSON

`State.toJson` writes a state as an object; `State.ofJson?` reads it back, and reads the array form
too. `State.parse` reads the text of a document that is nested no deeper than the limit.
-/

namespace Provision

namespace State

/-- The names of the fields. -/
def fieldNames : List String := ["serial", "last_modified", "resources"]

/-- The document of a state. -/
def toJson (s : State) : Json :=
  .object [("serial", .number (.int s.serial.toNat)), ("last_modified", .string s.lastModified.text),
    ("resources", .array (s.resources.map Resource.toJson))]

/-- A serial: an integer of 64 bits that is not negative. -/
def serial? : Json → Option UInt64
  | .number (.int i) => if 0 ≤ i ∧ i < UInt64.size then some (.ofNat i.toNat) else none
  | _ => none

/-- The state of a document; the serial and the resources may be left out. -/
def ofJson? (j : Json) : Option State := do
  match ← j.record? fieldNames with
  | [serial, lastModified, resources] =>
    return {
      serial := ← serial.elim (some 0) serial?
      lastModified := ← (← (← lastModified).string?) |> Timestamp.ofText?
      resources := ← resources.elim (some []) (Json.items? Resource.ofJson?) }
  | _ => none

/-- The state of a text. -/
def parse (text : String) : Option State := do
  let s ← ofJson? (← Json.parse text)
  if s.toJson.depth ≤ Json.depthLimit then some s else none

end State

end Provision
