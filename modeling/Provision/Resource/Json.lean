import Provision.Json
import Provision.Resource

/-!
# Resources as JSON

`Resource.toJson` writes a resource as an object, without its dependencies if it has none;
`Resource.ofJson?` reads it back, and reads the array form too.
-/

namespace Provision

namespace Resource

/-- The names of the fields. -/
def fieldNames : List String := ["id", "type", "attributes", "depends_on"]

/-- The document of a resource. -/
def toJson (r : Resource) : Json :=
  .object ([("id", .string r.id), ("type", .string r.type), ("attributes", r.attributes.toJson)]
    ++ if r.dependsOn.isEmpty then [] else [("depends_on", .array (r.dependsOn.map .string))])

/-- The resource of a document; attributes and dependencies may be left out. -/
def ofJson? (j : Json) : Option Resource := do
  match ← j.record? fieldNames with
  | [id, type, attributes, dependsOn] =>
    return {
      id := ← (← id).string?
      type := ← (← type).string?
      attributes := ← attributes.elim (some []) Attributes.ofJson?
      dependsOn := ← dependsOn.elim (some []) (Json.items? Json.string?) }
  | _ => none

end Resource

namespace Action

/-- The name in a document. -/
def jsonName : Action → String
  | .create => "Create"
  | .update => "Update"
  | .delete => "Delete"
  | .unchanged => "Unchanged"

/-- The action of a document: its name, or an object with its name alone and null. -/
def ofJson? : Json → Option Action
  | .string s | .object [(s, .null)] => all.find? (·.jsonName = s)
  | _ => none

end Action

end Provision
